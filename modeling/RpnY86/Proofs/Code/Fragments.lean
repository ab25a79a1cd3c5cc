import Mathlib
import RpnY86.Code.Fragment
import RpnY86.Operation.Evaluation

/-! # The parts of fragments

What it means that operations have code: each fragment is a core in the frame that its stack effect
calls for, and each operation is a step of a computation. -/

namespace RpnY86.Code

/-- The lines of a fragment around its core. -/
def framed (o : Opcode) (e : StackEffect) (code : List Line) : List Line :=
  opening o ++ requireDepth e.pops ++ requireRoom e.delta ++ code ++ adjustDepth e.delta

/-- A push has a core just if its literal is a number that fits in a word. -/
theorem core_push_eq_ok {n : Nat} {literal : String} {pos : Int} {ls : List Line} :
    core n ⟨.push, literal, pos⟩ = .ok ls ↔
      ∃ v, Numeral.readSigned .plain 32 literal.toList = .ok v ∧ pushNumber v = ls := by
  simp only [core, literalValue]
  cases Numeral.readSigned .plain 32 literal.toList with
  | error e => simp
  | ok v => simp

theorem fragment_eq_ok {n : Nat} {o : Operation} {ls : List Line} (h : fragment n o = .ok ls) :
    ∃ e code, o.opcode.effect? = some e ∧ core n o = .ok code ∧ ls = framed o.opcode e code := by
  unfold fragment at h
  cases he : o.opcode.effect? with
  | none =>
    rw [he] at h
    exact nomatch h
  | some e =>
    cases hc : core n o with
    | error err =>
      rw [he, hc] at h
      exact nomatch h
    | ok code =>
      rw [he, hc] at h
      exact ⟨e, code, rfl, rfl, (Except.ok.inj h).symm⟩

theorem exists_step_of_fragment {n : Nat} {o : Operation} {ls : List Line}
    (h : fragment n o = .ok ls) : ∃ s, Step.ofOperation? o = some s := by
  obtain ⟨e, code, he, hc, -⟩ := fragment_eq_ok h
  obtain ⟨opcode, literal, pos⟩ := o
  cases opcode with
  | other c => cases he
  | push =>
    obtain ⟨v, hv, -⟩ := core_push_eq_ok.1 hc
    simp only [Step.ofOperation?, hv]
    exact ⟨_, rfl⟩
  | _ => exact ⟨_, rfl⟩

theorem fragmentsFrom_cons {n : Nat} {o : Operation} {os : List Operation} {fs : List (List Line)}
    (h : fragmentsFrom n (o :: os) = .ok fs) :
    ∃ ls gs, fragment n o = .ok ls ∧ fragmentsFrom (n + suffixes o.opcode) os = .ok gs ∧
      fs = ls :: gs := by
  simp only [fragmentsFrom] at h
  cases hf : fragment n o with
  | error e =>
    rw [hf] at h
    exact nomatch h
  | ok ls =>
    cases hr : fragmentsFrom (n + suffixes o.opcode) os with
    | error e =>
      rw [hf, hr] at h
      exact nomatch h
    | ok gs =>
      rw [hf, hr] at h
      exact ⟨ls, gs, rfl, rfl, (Except.ok.inj h).symm⟩

theorem fragmentsFrom_take {n : Nat} {os : List Operation} {fs : List (List Line)}
    (h : fragmentsFrom n os = .ok fs) (k : Nat) :
    fragmentsFrom n (os.take k) = .ok (fs.take k) := by
  induction os generalizing n fs k with
  | nil =>
    obtain rfl := Except.ok.inj h
    rw [List.take_nil, List.take_nil]
    rfl
  | cons o os ih =>
    obtain ⟨ls, gs, hf, hr, rfl⟩ := fragmentsFrom_cons h
    cases k with
    | zero => rfl
    | succ k =>
      rw [List.take_succ_cons, fragmentsFrom, hf, ih hr k]
      rfl

theorem exists_fragment_getElem? {n : Nat} {os : List Operation} {fs : List (List Line)}
    (h : fragmentsFrom n os = .ok fs) {k : Nat} {o : Operation} (ho : os[k]? = some o) :
    ∃ m ls, fragment m o = .ok ls ∧ fs[k]? = some ls := by
  induction os generalizing n fs k with
  | nil => exact nomatch ho
  | cons o' os ih =>
    obtain ⟨ls, gs, hf, hr, rfl⟩ := fragmentsFrom_cons h
    cases k with
    | zero =>
      obtain rfl := Option.some.inj ho
      exact ⟨n, ls, hf, rfl⟩
    | succ k => exact ih hr ho

theorem length_fragmentsFrom {n : Nat} {os : List Operation} {fs : List (List Line)}
    (h : fragmentsFrom n os = .ok fs) : fs.length = os.length := by
  induction os generalizing n fs with
  | nil =>
    obtain rfl := Except.ok.inj h
    rfl
  | cons o os ih =>
    obtain ⟨ls, gs, -, hr, rfl⟩ := fragmentsFrom_cons h
    rw [List.length_cons, ih hr, List.length_cons]

/-- The number of label suffixes that operations use up. -/
def suffixesOf (os : List Operation) : Nat := (os.map fun o => suffixes o.opcode).sum

/-- **Code is put together** from the code of its parts. -/
theorem fragmentsFrom_append (n : Nat) (os os' : List Operation) :
    fragmentsFrom n (os ++ os') =
      fragmentsFrom n os >>= fun fs => (fs ++ ·) <$> fragmentsFrom (n + suffixesOf os) os' := by
  induction os generalizing n with
  | nil =>
    rw [List.nil_append]
    change _ = ([] ++ ·) <$> fragmentsFrom (n + 0) os'
    cases fragmentsFrom n os' <;> rfl
  | cons o os ih =>
    have hsum : n + suffixes o.opcode + suffixesOf os = n + suffixesOf (o :: os) := by
      rw [suffixesOf, suffixesOf, List.map_cons, List.sum_cons, Nat.add_assoc]
    rw [List.cons_append, fragmentsFrom, fragmentsFrom, ih, hsum]
    cases fragment n o with
    | error e => rfl
    | ok f =>
      cases fragmentsFrom (n + suffixes o.opcode) os with
      | error e => rfl
      | ok fs => cases fragmentsFrom (n + suffixesOf (o :: os)) os' <;> rfl

theorem body_eq_ok {os : List Operation} {s : String} :
    body os = .ok s ↔ ∃ fs, fragments os = .ok fs ∧ s = render fs.flatten := by
  unfold body
  cases fragments os with
  | error e =>
    constructor
    · intro h
      cases h
    · rintro ⟨fs, h, -⟩
      cases h
  | ok fs =>
    constructor
    · intro h
      exact ⟨fs, rfl, (Except.ok.inj h).symm⟩
    · rintro ⟨fs', h, rfl⟩
      obtain rfl := Except.ok.inj h
      rfl

theorem body_eq_error {os : List Operation} {e : CompileError} (h : fragments os = .error e) :
    body os = .error e := by
  unfold body
  rw [h]
  rfl

/-- **Fragments in order**, one for each operation. -/
theorem forall₂_fragment {n : Nat} {os : List Operation} {fs : List (List Line)}
    (h : fragmentsFrom n os = .ok fs) :
    List.Forall₂ (fun o f => ∃ m, fragment m o = .ok f) os fs := by
  induction os generalizing n fs with
  | nil =>
    obtain rfl := Except.ok.inj h
    exact .nil
  | cons o os ih =>
    obtain ⟨ls, gs, hf, hr, rfl⟩ := fragmentsFrom_cons h
    exact .cons ⟨n, hf⟩ (ih hr)

/-- The steps of operations. -/
abbrev Steps (os : List Operation) (ss : List Step) : Prop :=
  List.Forall₂ (fun o s => Step.ofOperation? o = some s) os ss

theorem exists_steps_of_fragments {n : Nat} {os : List Operation} {fs : List (List Line)}
    (h : fragmentsFrom n os = .ok fs) : ∃ ss, Steps os ss := by
  induction os generalizing n fs with
  | nil => exact ⟨[], .nil⟩
  | cons o os ih =>
    obtain ⟨ls, gs, hf, hr, -⟩ := fragmentsFrom_cons h
    obtain ⟨s, hs⟩ := exists_step_of_fragment hf
    obtain ⟨ss, hss⟩ := ih hr
    exact ⟨s :: ss, .cons hs hss⟩

end RpnY86.Code
