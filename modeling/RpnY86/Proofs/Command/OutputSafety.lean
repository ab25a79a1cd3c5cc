import RpnY86.Proofs.Command.Files
import RpnY86.Proofs.Command.Invocations

/-! # Which files command lines change

A command line changes one file at most, the one at its output path, and gives it the text of the
compiled program or the assembled image. It does not change a file that exists unless it is told to,
and it changes none if it is refused or only asks for help (`Invocation.Safe`). This holds for every
command line in a sequence, and so a file that was there before the sequence is changed by a forced
command line only (`Invocation.safe_after`). -/

namespace RpnY86.Command

/-- The path of the output that is asked for and the output itself, if there is any. -/
def Request.output? (q : Request) (t : FileTree) (input : Except FileError Bytes) :
    Option (Bytes × Bytes) :=
  match q.command, q.words with
  | .root, _ | .compile, _ =>
    (q.compiled t input).toOption.map fun program =>
      (q.given.outputPath Context.defaultProgramPath, Text.encode (.ofString program))
  | .asm, [path] =>
    (assembled t path).toOption.map fun image =>
      (q.given.outputPath (Context.imagePath path), image)
  | _, _ => none

namespace Invocation

variable {i : Invocation} {t t' : FileTree} {e : Ending}

/-! ### What an invocation asks for -/

/-- The command that is to run. -/
def command? (i : Invocation) : Option Subcommand := i.request?.map Request.command

/-- Whether something that exists is to be replaced. -/
def forced (i : Invocation) : Bool := i.request?.any fun q => q.given.isOn .force

/-- The path of the output and the output itself, if there is any. -/
def output? (i : Invocation) (t : FileTree) : Option (Bytes × Bytes) :=
  i.request?.bind fun q => q.output? t i.input

/-- The place of the output. -/
def place? (i : Invocation) (t : FileTree) : Option Place :=
  (i.output? t).bind fun output => t.place? output.1

/-- **What an invocation may do to files.** -/
structure Safe (i : Invocation) (t : FileTree) (e : Ending) (t' : FileTree) : Prop where
  /-- A command line that is refused or asks for help changes no file. -/
  idle : i.command? = none → t' = t
  /-- Some commands change no file. -/
  reads : i.command? = some .run ∨ i.command? = some .tokens ∨ i.command? = some .ir → t' = t
  /-- All files are as they were, but the one at the output path. -/
  frame : ∀ p, i.place? t ≠ some p → t'.content? p = t.content? p
  /-- A file that has changed holds the output. -/
  content : ∀ p, t'.content? p ≠ t.content? p →
    ∃ output, i.output? t = some output ∧ t'.content? p = some output.2
  /-- A file that exists is changed by force only. -/
  kept : i.forced = false → ∀ p bs, t.content? p = some bs → t'.content? p = some bs
  /-- Compiling that does not succeed changes no file. -/
  compile : i.command? = some .root ∨ i.command? = some .compile → e ≠ .exit 0 → t' = t
  /-- Assembling that does not succeed has changed a file only if running the written image has not
  succeeded. -/
  assemble : i.command? = some .asm → e ≠ .exit 0 → t' ≠ t →
    ∃ q input output p, i.request? = some q ∧ q.words = [input] ∧ q.given.isOn .run = true ∧
      i.output? t = some output ∧ i.place? t = some p ∧ t'.content? p = some output.2 ∧
      ∀ s, q.settings.simulate output.2 ≠ .ok (s, .finished)

theorem Safe.unchanged (i : Invocation) (t : FileTree) (e : Ending) : i.Safe t e t where
  idle _ := rfl
  reads _ := rfl
  frame _ _ := rfl
  content _ h := absurd rfl h
  kept _ _ _ h := h
  compile _ _ := rfl
  assemble _ _ h := absurd rfl h

theorem Safe.delivered {path bs : Bytes}
    (hcommand : i.command? = some .root ∨ i.command? = some .compile ∨ i.command? = some .asm)
    (houtput : i.output? t = some (path, bs)) (h : t.deliver i.forced path bs = .ok t')
    (hcompile : i.command? = some .root ∨ i.command? = some .compile → e = .exit 0)
    (hassemble : i.command? = some .asm → e ≠ .exit 0 → ∃ q input, i.request? = some q ∧
      q.words = [input] ∧ q.given.isOn .run = true ∧
      ∀ s, q.settings.simulate bs ≠ .ok (s, .finished)) :
    i.Safe t e t' := by
  obtain rfl | ⟨p, hp, rfl, hfree⟩ := FileTree.deliver_cases h
  · exact .unchanged i _ e
  have hplace : i.place? t = some p := by rw [place?, houtput, Option.bind_some, hp]
  refine ⟨fun hidle => ?_, fun hreads => ?_, fun r hr => ?_, fun r hr => ?_,
    fun hforced r old hr => ?_, fun hc he => ?_, fun hc he _ => ?_⟩
  · rw [hidle] at hcommand
    rcases hcommand with hc | hc | hc <;> cases hc
  · rcases hcommand with hc | hc | hc <;> rcases hreads with hr | hr | hr <;> rw [hc] at hr <;>
      cases hr
  · rw [FileTree.content?_put, if_neg]
    rintro rfl
    exact hr hplace
  · rw [FileTree.content?_put] at hr ⊢
    split_ifs at hr ⊢ with hrp
    · exact ⟨_, houtput, rfl⟩
    · exact absurd rfl hr
  · rw [hforced] at hfree
    rw [FileTree.content?_put, if_neg, hr]
    rintro rfl
    rcases hfree with hfree | hfree
    · cases hfree
    · rw [hfree] at hr
      cases hr
  · exact absurd (hcompile hc) he
  · obtain ⟨q, input, hrequest, hwords, hrun, hs⟩ := hassemble hc he
    refine ⟨q, input, _, p, hrequest, hwords, hrun, houtput, hplace, ?_, hs⟩
    rw [FileTree.content?_put, if_pos rfl]

/-! ### One invocation -/

theorem Ends.safe {r : Except Stop Unit} {bs : Bytes} (h : i.Ends t r t' bs)
    (hs : i.Safe t (Command.ending r) t') : i.Safe t (i.perform t).1 (i.perform t).2.tree := by
  rw [h.ending, h.tree]
  exact hs

theorem Ends.safe_unchanged {r : Except Stop Unit} {bs : Bytes} (h : i.Ends t r t bs) :
    i.Safe t (i.perform t).1 (i.perform t).2.tree :=
  h.safe (.unchanged i t _)

section request

variable {q : Request} (h : i.request? = some q)

include h

theorem command?_eq : i.command? = some q.command := by rw [command?, h, Option.map_some]

theorem forced_eq : i.forced = q.given.isOn .force := by rw [forced, h, Option.any_some]

theorem output?_eq : i.output? t = q.output? t i.input := by rw [output?, h, Option.bind_some]

variable (hq : q.Admitted)

include hq

theorem safe_of_keeps (hkeeps : Keeps (i.context q).run (i.world t)) :
    i.Safe t (i.perform t).1 (i.perform t).2.tree := by
  obtain ⟨r, bs, hd⟩ := hkeeps
  exact (ends_of_does h hq hd).safe_unchanged

theorem safe_compile (hcommand : q.command = .root ∨ q.command = .compile) :
    i.Safe t (i.perform t).1 (i.perform t).2.tree := by
  have hc : (i.context q).host = World.host i.terminal i.time := rfl
  have hends {r : Except Stop Unit} {t' : FileTree} {bs : Bytes}
      (hd : Does (i.context q).runCompile (i.world t) r t' bs) : i.Ends t r t' bs :=
    ends_of_does h hq (Context.run_compile (c := i.context q) hcommand ▸ hd)
  cases hp : q.compiled t i.input with
  | error e => exact (hends (Context.does_runCompile_error (w := i.world t) hc hp)).safe_unchanged
  | ok program =>
    have hboth := Context.does_runCompile (c := i.context q) (w := i.world t) hc hp rfl
    have houtput : i.output? t = some (q.given.outputPath Context.defaultProgramPath,
        Text.encode (.ofString program)) := by
      rw [output?_eq h]
      unfold Request.output?
      rcases hcommand with hcommand | hcommand
      · rw [hcommand, hp]
        rfl
      · rw [hcommand, hp]
        rfl
    cases hd : t.deliver (q.given.isOn .force) (q.given.outputPath Context.defaultProgramPath)
        (Text.encode (.ofString program)) with
    | error f => exact (hends (hboth.1 f hd)).safe_unchanged
    | ok t' =>
      refine (hends (hboth.2 t' hd)).safe (.delivered ?_ houtput ?_ (fun _ => rfl) fun hasm => ?_)
      · rw [command?_eq h, Option.some.injEq, Option.some.injEq, Option.some.injEq]
        exact hcommand.imp id .inl
      · rw [forced_eq h, hd]
      · rw [command?_eq h, Option.some.injEq] at hasm
        rw [hasm] at hcommand
        rcases hcommand with hcommand | hcommand <;> cases hcommand

omit hq

/-- The image of a file is written, and what follows decides the end only. -/
theorem safe_image {input image : Bytes} (hwords : q.words = [input])
    (hcommand : q.command = .asm) (himage : assembled t input = .ok image)
    (hd : t.deliver (q.given.isOn .force) (q.given.outputPath (Context.imagePath input)) image =
      .ok t')
    (he : e ≠ .exit 0 → q.given.isOn .run = true ∧
      ∀ s, q.settings.simulate image ≠ .ok (s, .finished)) :
    i.Safe t e t' := by
  have hasm : i.command? = some .asm := by rw [command?_eq h, hcommand]
  have houtput : i.output? t = some (q.given.outputPath (Context.imagePath input), image) := by
    rw [output?_eq h]
    unfold Request.output?
    rw [hcommand, hwords]
    dsimp only
    rw [himage]
    rfl
  refine .delivered (.inr (.inr hasm)) houtput ?_ (fun hcompile => ?_) fun _ hne => ?_
  · rw [forced_eq h, hd]
  · rw [hasm] at hcompile
    rcases hcompile with hcompile | hcompile <;> cases hcompile
  · exact ⟨q, input, h, hwords, he hne⟩

include hq

theorem safe_assemble (hcommand : q.command = .asm) :
    i.Safe t (i.perform t).1 (i.perform t).2.tree := by
  have hc : (i.context q).host = World.host i.terminal i.time := rfl
  obtain ⟨input, hwords⟩ := hq.exists_word hcommand
  have hends {r : Except Stop Unit} {t' : FileTree} {bs : Bytes}
      (hd : Does ((i.context q).runAssemble input) (i.world t) r t' bs) : i.Ends t r t' bs :=
    ends_of_does h hq (Context.run_asm (c := i.context q) hcommand hwords ▸ hd)
  cases himage : assembled t input with
  | error e =>
    exact (hends (Context.does_runAssemble_error (w := i.world t) hc himage)).safe_unchanged
  | ok image =>
    cases hd : t.deliver (q.given.isOn .force) (q.given.outputPath (Context.imagePath input))
      image with
    | error f =>
      exact (hends (Context.does_runAssemble_refused (w := i.world t) hc himage hd)).safe_unchanged
    | ok t' =>
      cases hrun : q.given.isOn .run with
      | false =>
        have hdoes := Context.does_runAssemble_only (w := i.world t) hc himage hd hrun
        exact (hends hdoes).safe (safe_image h hwords hcommand himage hd fun hne => absurd rfl hne)
      | true =>
        cases hs : q.settings.executed image with
        | error e =>
          have hdoes := Context.does_runAssemble_stopped (w := i.world t) hc himage hd hrun hs
          refine (hends hdoes).safe (safe_image h hwords hcommand himage hd fun _ =>
            ⟨hrun, fun s hfinished => ?_⟩)
          rw [Settings.executed_eq hfinished rfl] at hs
          cases hs
        | ok r =>
          obtain ⟨s, failure⟩ := r
          have hdoes := Context.does_runAssemble_run (w := i.world t) hc himage hd hrun hs
          refine (hends hdoes).safe (safe_image h hwords hcommand himage hd fun hne =>
            ⟨hrun, fun s' hfinished => ?_⟩)
          rw [Settings.executed_eq hfinished rfl] at hs
          cases hs
          exact hne rfl

end request

/-- **One invocation is safe.** -/
theorem safe_perform (i : Invocation) (t : FileTree) :
    i.Safe t (i.perform t).1 (i.perform t).2.tree := by
  rcases i.ends_or_runs t with ⟨r, bs, hr⟩ | ⟨q, h, hq⟩
  · exact hr.safe_unchanged
  have hc : (i.context q).host = World.host i.terminal i.time := rfl
  cases hcommand : q.command with
  | root => exact safe_compile h hq (.inl hcommand)
  | compile => exact safe_compile h hq (.inr hcommand)
  | asm => exact safe_assemble h hq hcommand
  | run =>
    refine safe_of_keeps h hq ?_
    rw [Context.run_run hcommand]
    exact Context.keeps_runRun hc _
  | tokens =>
    refine safe_of_keeps h hq ?_
    rw [Context.run_tokens hcommand]
    exact Context.keeps_runTokens hc _
  | ir =>
    refine safe_of_keeps h hq ?_
    rw [Context.run_ir hcommand]
    exact Context.keeps_runOperations hc _

/-! ### Sequences of invocations -/

/-- The files after a sequence of invocations. -/
def after (t : FileTree) (is : List Invocation) : FileTree :=
  is.foldl (fun t i => (i.perform t).2.tree) t

/-- **Output files are safe**, over every sequence of invocations: each of them does to files what
it may do, and every change of a file is made by an invocation whose output goes there, by force if
the file was there from the beginning. -/
theorem safe_after (t : FileTree) (is : List Invocation) :
    (∀ before i rest, is = before ++ i :: rest →
      i.Safe (after t before) (i.perform (after t before)).1 (after t (before ++ [i]))) ∧
    ∀ p, (after t is).content? p ≠ t.content? p →
      ∃ before i rest, is = before ++ i :: rest ∧ i.place? (after t before) = some p ∧
        (t.content? p ≠ none → i.forced = true) := by
  refine ⟨fun before i rest _ => ?_, fun p hp => ?_⟩
  · have hstep : after t (before ++ [i]) = (i.perform (after t before)).2.tree := by
      rw [after, List.foldl_append]
      rfl
    rw [hstep]
    exact safe_perform i _
  · induction is generalizing t with
    | nil => exact absurd rfl hp
    | cons i is ih =>
      have hsafe := safe_perform i t
      by_cases hstep : (i.perform t).2.tree.content? p = t.content? p
      · obtain ⟨before, j, rest, rfl, hplace, hforced⟩ := ih (i.perform t).2.tree (by
          rw [hstep]
          exact hp)
        rw [hstep] at hforced
        exact ⟨i :: before, j, rest, rfl, hplace, hforced⟩
      · refine ⟨[], i, is, rfl, ?_, fun hold => ?_⟩
        · by_contra hplace
          exact hstep (hsafe.frame p hplace)
        · by_contra hforced
          obtain ⟨bs, hbs⟩ := Option.ne_none_iff_exists'.1 hold
          have hkept := hsafe.kept (Bool.eq_false_of_not_eq_true hforced) p bs hbs
          exact hstep (hkept.trans hbs.symm)

end Invocation

end RpnY86.Command
