import RpnY86.Proofs.Command.Commands

/-! # Command lines and what they leave

What an invocation leaves (`Invocation.Ends`) follows from what its command does
(`Invocation.ends_of_does`), once its command line is read and its request is admitted. Nothing is
assumed about how command lines are read: a toolkit may find any request in them. -/

namespace RpnY86.Command

/-! ### Starting a command -/

namespace Context

variable {c : Context (StateM World)} {w : World}

theorem run_compile (h : c.request.command = .root ∨ c.request.command = .compile) :
    c.run = c.runCompile := by
  unfold run
  rcases h with h | h
  · rw [h]
  · rw [h]

theorem run_run (h : c.request.command = .run) : c.run = c.runRun := by
  unfold run
  rw [h]

theorem run_asm (h : c.request.command = .asm) {input : Bytes}
    (hwords : c.request.words = [input]) :
    c.run = c.runAssemble input := by
  unfold run
  rw [h, hwords]

theorem run_tokens (h : c.request.command = .tokens) : c.run = c.runTokens := by
  unfold run
  rw [h]

theorem run_ir (h : c.request.command = .ir) : c.run = c.runOperations := by
  unfold run
  rw [h]

end Context

/-- The arguments are as many as the command takes, and the settings are accepted. -/
structure Request.Admitted (q : Request) : Prop where
  count : q.countFailure? = none
  settings : q.settings.failure? = none

theorem Request.Admitted.exists_word {q : Request} (h : q.Admitted) (hasm : q.command = .asm) :
    ∃ input, q.words = [input] := by
  have hcount := h.count
  unfold countFailure? at hcount
  split_ifs at hcount with hne
  exact List.length_eq_one_iff.1 (by_contra fun hlength => hne ⟨hasm, hlength⟩)

/-- The end that a result leads to. -/
def ending : Except Stop Unit → Ending
  | .ok () => .exit 0
  | .error (.failure _) => .exit 1
  | .error (.defect d) => .crash d
  | .error .endless => .never

/-! ### Invocations -/

namespace Invocation

variable (i : Invocation) (t : FileTree)

/-- The request that is found in the command line. -/
def request? : Option Request :=
  match i.tools.read i.args i.env with
  | .request q => some q
  | .refused _ | .usage _ _ => none

/-- What a command runs with. -/
def context (q : Request) : Context (StateM World) where
  host := i.host
  tools := i.tools
  request := q

/-- The world that the command finds. -/
def world : World where
  tree := t
  input := i.input

/-- Whether reports have no colours. Settings count once the arguments have been counted. -/
def plain : Bool :=
  match i.request? with
  | some q => i.tools.plain || (q.countFailure?.isNone && (q.settings.noColor || !i.terminal))
  | none => i.tools.plain

/-- What an invocation leaves: a result, files, and what was shown. -/
structure Ends (r : Except Stop Unit) (t' : FileTree) (bs : Bytes) : Prop where
  ending : (i.perform t).1 = ending r
  tree : (i.perform t).2.tree = t'
  out : (i.perform t).2.out = bs
  err : ∀ f, r = .error (.failure f) →
    Text.encode (f.report (i.tools.palette i.plain)) <:+ (i.perform t).2.err

variable {i t}

theorem request?_eq_some {q : Request} :
    i.request? = some q ↔ i.tools.read i.args i.env = .request q := by
  unfold request?
  cases i.tools.read i.args i.env with
  | refused message => simp
  | usage out err => simp
  | request q' => simp

theorem ends_of_conclude {r : Except Stop Unit} {w : World}
    (h : i.perform t = (conclude i.host (i.tools.palette i.plain) r).run w) :
    i.Ends t r w.tree w.out := by
  rcases r with (f | d | _) | ⟨⟩
  · refine ⟨congrArg Prod.fst h, ?_, ?_, fun f' hf => ?_⟩
    · rw [h]; rfl
    · rw [h]; rfl
    · cases hf
      rw [h]
      exact List.suffix_append w.err _
  all_goals
    refine ⟨congrArg Prod.fst h, ?_, ?_, fun f hf => by cases hf⟩
    · rw [h]; rfl
    · rw [h]; rfl

/-- **A command line without a request** changes no file. -/
theorem exists_ends_of_none (h : i.request? = none) : ∃ r bs, i.Ends t r t bs := by
  have hplain : i.plain = i.tools.plain := by rw [plain, h]
  unfold request? at h
  cases hread : i.tools.read i.args i.env with
  | request q =>
    rw [hread] at h
    cases h
  | refused message =>
    refine ⟨_, _, ends_of_conclude (r := .error (.failure (.refused message))) (w := i.world t) ?_⟩
    rw [hplain]
    unfold perform runCommand
    rw [hread]
    rfl
  | usage out err =>
    have hrun : i.perform t = (.exit 0, { i.world t with out := [] ++ out, err := [] ++ err }) := by
      unfold perform runCommand
      rw [hread]
      rfl
    refine ⟨.ok (), out, ?_, ?_, ?_, fun f hf => by cases hf⟩
    · rw [hrun]; rfl
    · rw [hrun]; rfl
    · rw [hrun]; rfl

section request

variable {q : Request} (h : i.request? = some q)

include h

theorem ends_of_countFailure {f : Failure} (hf : q.countFailure? = some f) :
    i.Ends t (.error (.failure f)) t [] := by
  have hplain : i.plain = i.tools.plain := by
    rw [plain, h]
    simp [hf]
  refine ends_of_conclude (w := i.world t) ?_
  rw [hplain]
  unfold perform runCommand
  simp only [request?_eq_some.1 h, hf]
  rfl

theorem ends_of_does_start (hcount : q.countFailure? = none) {r : Except Stop Unit} {t' : FileTree}
    {bs : Bytes} (hd : Does (i.context q).start (i.world t) r t' bs) : i.Ends t r t' bs := by
  have hplain : (i.context q).plain = i.plain := by
    rw [plain, h]
    simp [hcount, Context.plain, context, host, World.host, Bool.or_assoc]
  have hrun : i.perform t =
      (conclude i.host (i.tools.palette i.plain) (outcome (i.context q).start (i.world t)).1).run
        (outcome (i.context q).start (i.world t)).2 := by
    rw [← hplain]
    unfold perform runCommand
    simp only [request?_eq_some.1 h, hcount]
    rfl
  have hends := ends_of_conclude hrun
  rw [hd.result, hd.tree, hd.out] at hends
  exact hends

/-- **What a command does, its invocation leaves.** -/
theorem ends_of_does (hq : q.Admitted) {r : Except Stop Unit} {t' : FileTree} {bs : Bytes}
    (hd : Does (i.context q).run (i.world t) r t' bs) : i.Ends t r t' bs := by
  have hstart : (i.context q).start = (i.context q).run := by
    have hsettings : (i.context q).request.settings.failure? = none := hq.settings
    unfold Context.start
    rw [hsettings]
  exact ends_of_does_start h hq.count (hstart ▸ hd)

omit h

/-- **An invocation ends at once, or its command runs.** -/
theorem ends_or_runs (i : Invocation) (t : FileTree) :
    (∃ r bs, i.Ends t r t bs) ∨ ∃ q, i.request? = some q ∧ q.Admitted := by
  cases h : i.request? with
  | none => exact .inl (exists_ends_of_none h)
  | some q =>
    cases hcount : q.countFailure? with
    | some f => exact .inl ⟨_, _, ends_of_countFailure h hcount⟩
    | none =>
      cases hsettings : q.settings.failure? with
      | none => exact .inr ⟨q, rfl, hcount, hsettings⟩
      | some f =>
        have hfails : Does (i.context q).start (i.world t) (.error (.failure f)) t [] := by
          have hsettings : (i.context q).request.settings.failure? = some f := hsettings
          unfold Context.start
          rw [hsettings]
          exact (Does.fail f (i.world t)).bind_error
        exact .inl ⟨_, _, ends_of_does_start h hcount hfails⟩

end request

end Invocation

end RpnY86.Command
