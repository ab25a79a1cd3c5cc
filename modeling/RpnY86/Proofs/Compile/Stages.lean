import RpnY86.Compile.Pipeline
import RpnY86.Proofs.Code.Layout
import RpnY86.Proofs.Token.Words

/-! # What the stages make of words

Each stage of a compilation goes from word to word: the builder takes each word to an operation, and
the generator each operation to a fragment. So each stage stops at the first word that it cannot
take, and what comes out of it can be said of the words alone. -/

namespace RpnY86

open Code (Steps codeLength fragment fragments fragmentsFrom fragmentsFrom_cons)
open Numeral (IsNarrow integerValue isInteger)

/-! ### Words as operations and steps -/

/-- The opcode of a word. -/
def Opcode.ofWord? (w : List Char) : Option Opcode := (TokenKind.ofWord? w).bind Opcode.ofToken?

/-- The operation of a word. -/
def Word.operation? (w : Word) : Option Operation :=
  (Opcode.ofWord? w.text).map fun opcode =>
    { opcode, literal := if opcode = .push then String.ofList w.text else "", pos := w.pos }

/-- Whether a word is a number that does not fit in 32 bits. -/
def Word.isWide (w : Word) : Bool := isInteger w.text && !decide (IsNarrow (integerValue w.text))

/-- The steps of words that are no numbers. -/
def Step.vocabulary : List (String × Step) :=
  [("+", .binary .add), ("-", .binary .sub), ("*", .binary .mul), ("/", .binary .div),
   ("and", .binary .and), ("xor", .binary .xor), ("dup", .dup), ("swap", .swap)]

/-- The step that a word stands for. -/
def Step.ofWord? (w : List Char) : Option Step :=
  if isInteger w then some (.number (UInt32.ofInt (integerValue w)))
  else Step.vocabulary.lookup (String.ofList w)

theorem Word.operation?_eq_some {w : Word} {o : Operation} (h : w.operation? = some o) :
    (isInteger w.text = true ∧ o = ⟨.push, String.ofList w.text, w.pos⟩) ∨
      (isInteger w.text = false ∧ ∃ p ∈ RpnY86.vocabulary, p.1 = String.ofList w.text ∧
        ∃ op, Opcode.ofToken? p.2 = some op ∧ o = ⟨op, "", w.pos⟩) := by
  obtain ⟨op, hop, rfl⟩ := Option.map_eq_some_iff.1 h
  obtain ⟨kind, hk, hkind⟩ := Option.bind_eq_some_iff.1 hop
  rcases ofWord?_eq_some hk with ⟨hi, rfl⟩ | ⟨hi, hmem⟩
  · obtain rfl := Option.some.inj hkind
    exact .inl ⟨hi, rfl⟩
  · have hpush : ∀ p ∈ RpnY86.vocabulary, ∀ op ∈ Opcode.ofToken? p.2, op ≠ .push := by decide
    refine .inr ⟨hi, _, hmem, rfl, op, hkind, ?_⟩
    rw [if_neg (hpush _ hmem op hkind)]

/-- **Words and operations mean the same steps.** -/
theorem Word.ofWord?_of_operation? {w : Word} {o : Operation} {s : Step} (h : w.operation? = some o)
    (hs : Step.ofOperation? o = some s) : Step.ofWord? w.text = some s := by
  rcases Word.operation?_eq_some h with ⟨hi, rfl⟩ | ⟨hi, p, hp, htext, op, hop, rfl⟩
  · simp only [Step.ofOperation?, String.toList_ofList, Numeral.readSigned_integer hi] at hs
    rw [Step.ofWord?, if_pos hi]
    split at hs
    · rename_i v hv
      split at hv
      · obtain rfl := Except.ok.inj hv
        exact hs
      · cases hv
    · cases hs
  · have hsteps : ∀ p ∈ RpnY86.vocabulary, ∀ op ∈ Opcode.ofToken? p.2,
        Step.vocabulary.lookup p.1 = Step.ofOperation? ⟨op, "", 0⟩ := by decide
    rw [Step.ofWord?, hi, if_neg (by decide), ← htext, hsteps p hp op hop]
    exact hs

/-! ### The builder -/

theorem ofToken_eq {w : Word} {t : Token} (h : w.token? = some t) :
    Operation.ofToken t =
      match w.operation? with
      | some o => .ok o
      | none => .error (.atToken .unknownToken t (.noInstruction t.kind)) := by
  obtain ⟨kind, hk, rfl⟩ := Option.map_eq_some_iff.1 h
  rw [Word.operation?, Opcode.ofWord?, hk, Option.bind_some, Operation.ofToken]
  cases kind <;> rfl

/-- **The builder** stops at the first word without an operation. -/
theorem mapM_ofToken {ws : List Word} {ts : List Token}
    (h : List.Forall₂ (fun w t => w.token? = some t) ws ts) :
    match ws.find? (·.operation?.isNone) with
    | some w => ∃ t, w.token? = some t ∧
        ts.mapM Operation.ofToken = .error (.atToken .unknownToken t (.noInstruction t.kind))
    | none => ∃ os, ts.mapM Operation.ofToken = .ok os ∧
        List.Forall₂ (fun w o => w.operation? = some o) ws os := by
  induction h with
  | nil => exact ⟨[], rfl, .nil⟩
  | @cons w t ws ts ht _ ih =>
    have hfirst := ofToken_eq ht
    rw [List.find?_cons, List.mapM_cons]
    cases ho : w.operation? with
    | none =>
      rw [ho] at hfirst
      simp only [hfirst]
      exact ⟨t, ht, rfl⟩
    | some o =>
      rw [ho] at hfirst
      simp only [hfirst, Option.isNone_some]
      cases hw : ws.find? (·.operation?.isNone) with
      | some v =>
        rw [hw] at ih
        obtain ⟨u, hu, he⟩ := ih
        refine ⟨u, hu, ?_⟩
        rw [he]
        rfl
      | none =>
        rw [hw] at ih
        obtain ⟨os, hos, hall⟩ := ih
        refine ⟨o :: os, ?_, .cons ho hall⟩
        rw [hos]
        rfl

/-- An error of a given kind about a word. -/
structure CompileError.IsAt (e : CompileError) (kind : ErrorKind) (w : Word) : Prop where
  kind : e.kind = kind
  pos : e.pos = w.pos
  token : e.token = String.ofList w.text

theorem CompileError.isAt_atToken {w : Word} {t : Token} (h : w.token? = some t) (kind : ErrorKind)
    (detail : Detail) : (CompileError.atToken kind t detail).IsAt kind w := by
  obtain ⟨k, -, rfl⟩ := Option.map_eq_some_iff.1 h
  exact ⟨rfl, rfl, rfl⟩

theorem Word.kind_eq_number_iff {w : Word} {t : Token} (h : w.token? = some t) :
    t.kind = .number ↔ isInteger w.text = true := by
  obtain ⟨k, hk, rfl⟩ := Option.map_eq_some_iff.1 h
  rcases ofWord?_eq_some hk with ⟨hi, rfl⟩ | ⟨hi, hmem⟩
  · exact ⟨fun _ => hi, fun _ => rfl⟩
  · have hnumber : ∀ p ∈ RpnY86.vocabulary, p.2 ≠ .number := by decide
    rw [hi]
    exact ⟨fun h => absurd h (hnumber _ hmem), fun h => (nomatch h)⟩

/-! ### The generator -/

theorem fragment_eq {w : Word} {o : Operation} (h : w.operation? = some o) (n : Nat) :
    (w.isWide = true ∧ ∃ e, fragment n o = .error e ∧ e.IsAt .codeGeneration w) ∨
      (w.isWide = false ∧ ∃ ls, fragment n o = .ok ls) := by
  rcases Word.operation?_eq_some h with ⟨hi, rfl⟩ | ⟨hi, p, hp, -, op, hop, rfl⟩
  · have hread := Numeral.readSigned_integer hi
    by_cases hv : IsNarrow (integerValue w.text)
    · right
      rw [if_pos hv] at hread
      refine ⟨by rw [Word.isWide, decide_eq_true hv, Bool.not_true, Bool.and_false], ?_⟩
      simp only [fragment, Opcode.effect?, Code.core, Code.literalValue, String.toList_ofList, hread]
      exact ⟨_, rfl⟩
    · left
      rw [if_neg hv] at hread
      refine ⟨by rw [Word.isWide, hi, decide_eq_false hv, Bool.not_false, Bool.and_true], ?_⟩
      simp only [fragment, Opcode.effect?, Code.core, Code.literalValue, String.toList_ofList, hread]
      exact ⟨_, rfl, rfl, rfl, rfl⟩
  · right
    have heffect : ∀ p ∈ vocabulary, ∀ op ∈ Opcode.ofToken? p.2,
        op ≠ .push ∧ op.effect?.isSome = true := by decide
    obtain ⟨hpush, hsome⟩ := heffect p hp op hop
    refine ⟨by rw [Word.isWide, hi, Bool.false_and], ?_⟩
    cases op with
    | push => exact absurd rfl hpush
    | other c => cases hsome
    | _ => exact ⟨_, rfl⟩

/-- **The generator** stops at the first number that does not fit. -/
theorem fragmentsFrom_spec {ws : List Word} {os : List Operation}
    (h : List.Forall₂ (fun w o => w.operation? = some o) ws os) (n : Nat) :
    match ws.find? Word.isWide with
    | some w => ∃ e, fragmentsFrom n os = .error e ∧ e.IsAt .codeGeneration w
    | none => ∃ fs, fragmentsFrom n os = .ok fs := by
  induction h generalizing n with
  | nil => exact ⟨[], rfl⟩
  | @cons w o ws os ho _ ih =>
    rw [List.find?_cons]
    rcases fragment_eq ho n with ⟨hw, e, he, hspec⟩ | ⟨hw, ls, hls⟩
    · simp only [hw]
      refine ⟨e, ?_, hspec⟩
      rw [fragmentsFrom, he]
      rfl
    · simp only [hw]
      have ih := ih (n + Code.suffixes o.opcode)
      cases hv : ws.find? Word.isWide with
      | some v =>
        rw [hv] at ih
        obtain ⟨e, he, hspec⟩ := ih
        refine ⟨e, ?_, hspec⟩
        rw [fragmentsFrom, hls, he]
        rfl
      | none =>
        rw [hv] at ih
        obtain ⟨fs, hfs⟩ := ih
        refine ⟨ls :: fs, ?_⟩
        rw [fragmentsFrom, hls, hfs]
        rfl

/-! ### The length of the code -/

/-- The length of the code for words: head, fragments, footer and handlers. It depends on the
opcodes only. -/
def encodedLength (ws : List Word) : Nat :=
  131 + (ws.map fun w => ((Opcode.ofWord? w.text).map codeLength).getD 0).sum

theorem codeEnd_eq_encodedLength {ws : List Word} {os : List Operation} {fs : List (List Code.Line)}
    (h : List.Forall₂ (fun w o => w.operation? = some o) ws os) (hf : fragments os = .ok fs) :
    Code.codeEnd fs = encodedLength ws := by
  have hsum : (os.map fun o => codeLength o.opcode).sum =
      (ws.map fun w => ((Opcode.ofWord? w.text).map codeLength).getD 0).sum := by
    clear hf
    induction h with
    | nil => rfl
    | cons ho _ ih =>
      obtain ⟨op, hop, rfl⟩ := Option.map_eq_some_iff.1 ho
      rw [List.map_cons, List.map_cons, List.sum_cons, List.sum_cons, ih, hop]
      rfl
  rw [Code.codeEnd, Code.size_fragments hf, hsum, encodedLength]
  omega

end RpnY86
