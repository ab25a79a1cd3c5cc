import RpnY86.Assembly.Image
import RpnY86.Proofs.Code.Legible
import RpnY86.Proofs.Code.Placed

/-! # Generated statements are assembled as they are meant

The operands of a legible instruction are read as its registers and the words that its constants
stand for (`instruction_parsed`), and a statement is known by its name (`ofName?_name`). -/

namespace RpnY86.Code

open Assembly (Emission Keyword LabelTable bare bare_of_head place_of_split word_eq)
open Y86 (Instruction Reg)

variable {labels : LabelTable}

/-! ### Operands -/

theorem register_name (l : Assembly.Line) (r : Reg) : l.register (.ofString r.name) = .ok r := by
  cases r <;> rfl

theorem chars_decimal (n : Int) :
    Text.chars (.ofString (Numeral.decimal n)) = Numeral.signedDigits 10 n := by
  rw [chars_ofString, Numeral.decimal, String.toList_ofList]

theorem readSigned_decimal {n : Int} (h : -2 ^ 63 ≤ n) (h' : n < 2 ^ 63) :
    Numeral.readSigned .marked 64 (Text.chars (.ofString (Numeral.decimal n))) = .ok n := by
  rw [chars_decimal, Numeral.readSigned_signedDigits h h']

theorem decimal_chars (n : Int) :
    ∀ c ∈ (Numeral.decimal n).toList, c.isAlphanum = true ∨ c = '-' := by
  rw [Numeral.decimal, String.toList_ofList]
  cases n with
  | ofNat k => exact fun c hc => .inl (isAlphanum_of_mem_digits (by omega) (by omega) hc)
  | negSucc k =>
    intro c hc
    rcases List.mem_cons.1 hc with rfl | hc
    · exact .inr rfl
    · exact .inl (isAlphanum_of_mem_digits (by omega) (by omega) hc)

theorem bare_decimal (n : Int) :
    bare (.ofString (Numeral.decimal n)) = .ofString (Numeral.decimal n) := by
  refine bare_of_head fun h0 => ?_
  obtain ⟨c, hc, hc'⟩ := List.mem_map.1 (List.mem_of_mem_head? h0)
  obtain rfl := Glyph.char.inj hc'
  rcases decimal_chars n _ hc with h | h
  · exact nomatch h
  · exact nomatch h

/-- What a constant is written with: letters, digits, underscores and minus signs. -/
theorem Ref.Legible.destination_chars {r : Ref} (h : r.Legible) :
    ∀ c ∈ r.destination.toList, c.isAlphanum = true ∨ c = '_' ∨ c = '-' := by
  cases r with
  | literal n => exact fun c hc => (decimal_chars n c hc).imp_right .inr
  | label name =>
    intro c hc
    have hname : isName name.toList = true := h
    cases hcs : name.toList with
    | nil =>
      rw [hcs] at hname
      exact nomatch hname
    | cons d ds =>
      rw [Ref.destination, hcs] at hc
      simp only [hcs, isName, Bool.and_eq_true, List.all_eq_true, Bool.or_eq_true,
        beq_iff_eq] at hname
      rcases List.mem_cons.1 hc with rfl | hc
      · exact .inl (by simp [Char.isAlphanum, hname.1])
      · exact (hname.2 c hc).imp_right .inl

theorem Ref.Legible.is_destination {r : Ref} (h : r.Legible) {d : Char}
    (hd : d.isAlphanum = false ∧ d ≠ '_' ∧ d ≠ '-') :
    ∀ g ∈ Text.ofString r.destination, g.is d = false := by
  intro g hg
  obtain ⟨c, hc, rfl⟩ := List.mem_map.1 hg
  refine beq_false_of_ne fun h0 => ?_
  obtain rfl := Glyph.char.inj h0
  rcases h.destination_chars c hc with h1 | h1 | h1
  · rw [hd.1] at h1
    exact nomatch h1
  · exact hd.2.1 h1
  · exact hd.2.2 h1

theorem word_bare {r : Ref} (h : r.Legible) {v : UInt32} (hv : r.resolve? labels = some v)
    (l : Assembly.Line) {operand : Text} (hb : bare operand = .ofString r.destination) :
    l.word labels operand = .ok v := by
  cases r with
  | literal n =>
    obtain rfl := Option.some.inj hv
    obtain ⟨h1, h2⟩ : -2 ^ 31 ≤ n ∧ n < 2 ^ 31 := h
    rw [word_eq, hb, Ref.destination, readSigned_decimal (by omega) (by omega)]
    exact if_pos ⟨h1, by omega⟩
  | label name =>
    have hv : labels.address? name = some v := hv
    rw [word_eq, hb, Ref.destination, chars_ofString, readSigned_of_isName h, Text.toString,
      chars_ofString, String.ofList_toList, hv]

theorem bare_destination {r : Ref} (h : r.Legible) :
    bare (.ofString r.destination) = .ofString r.destination := by
  refine bare_of_head fun h0 => ?_
  have hg := h.is_destination (d := '$') (by decide) (.char '$') (List.mem_of_mem_head? h0)
  cases hg

theorem bare_immediate {r : Ref} (h : r.Legible) :
    bare (.ofString r.immediate) = .ofString r.destination := by
  cases r with
  | literal n =>
    rw [Ref.immediate, ofString_append]
    rfl
  | label name => exact bare_destination h

theorem word_destination {r : Ref} (h : r.Legible) {v : UInt32} (hv : r.resolve? labels = some v)
    (l : Assembly.Line) : l.word labels (.ofString r.destination) = .ok v :=
  word_bare h hv l (bare_destination h)

theorem word_immediate {r : Ref} (h : r.Legible) {v : UInt32} (hv : r.resolve? labels = some v)
    (l : Assembly.Line) : l.word labels (.ofString r.immediate) = .ok v :=
  word_bare h hv l (bare_immediate h)

theorem resolve?_of_word {r : Ref} (h : r.Legible) {l : Assembly.Line} {operand : Text}
    (hb : bare operand = .ofString r.destination) {v : UInt32}
    (hv : l.word labels operand = .ok v) : r.resolve? labels = some v := by
  cases hr : r.resolve? labels with
  | some u =>
    rw [word_bare h hr l hb] at hv
    exact congrArg some (Except.ok.inj hv)
  | none =>
    cases r with
    | literal n => cases hr
    | label name =>
      have hnone : labels.address? name = none := hr
      rw [word_eq, hb, Ref.destination, chars_ofString, readSigned_of_isName h, Text.toString,
        chars_ofString, String.ofList_toList, hnone] at hv
      dsimp only at hv
      split_ifs at hv <;> cases hv

theorem place_eq {d : Ref} (h : d.Legible) (l : Assembly.Line) (base : Reg) :
    l.place labels (.ofString (d.place (some base))) =
      if d = .literal 0 then .ok (0, base)
      else (l.word labels (.ofString d.destination)).bind fun v => .ok (v, base) := by
  have htext : Text.ofString (d.place (some base)) =
      Text.ofString d.displacement ++ .char '(' :: Text.ofString base.name ++ [.char ')'] := by
    rw [Ref.place, ofString_append, ofString_append, ofString_append]
    simp [Text.ofString]
  have hplain : .char '(' ∉ Text.ofString d.displacement := by
    unfold Ref.displacement
    split
    · decide
    · intro hg
      have := h.is_destination (d := '(') (by decide) _ hg
      cases this
  rw [htext, place_of_split hplain, register_name]
  by_cases hd : d = .literal 0
  · rw [if_pos hd]
    subst hd
    rfl
  · have hdisp : d.displacement = d.destination := by
      unfold Ref.displacement
      split
      · exact absurd rfl hd
      · rfl
    have hne : (Text.ofString d.destination).isEmpty = false := by
      rw [List.isEmpty_eq_false_iff]
      exact fun h0 => h.destination.1 (List.map_eq_nil_iff.1 h0)
    rw [if_neg hd]
    simp only [hdisp, hne, Bool.false_eq_true, if_false]
    rfl

theorem place_some {d : Ref} (h : d.Legible) {v : UInt32} (hv : d.resolve? labels = some v)
    (l : Assembly.Line) (base : Reg) :
    l.place labels (.ofString (d.place (some base))) = .ok (v, base) := by
  rw [place_eq h]
  by_cases hd : d = .literal 0
  · rw [if_pos hd]
    subst hd
    obtain rfl := Option.some.inj hv
    rfl
  · rw [if_neg hd, word_destination h hv]
    rfl

theorem isSome_resolve?_of_place {d : Ref} (h : d.Legible) {l : Assembly.Line} {base : Reg}
    {x : UInt32 × Reg} (hx : l.place labels (.ofString (d.place (some base))) = .ok x) :
    (d.resolve? labels).isSome := by
  rw [place_eq h] at hx
  by_cases hd : d = .literal 0
  · subst hd
    rfl
  · rw [if_neg hd] at hx
    cases hw : l.word labels (.ofString d.destination) with
    | error e => rw [hw] at hx; cases hx
    | ok v => rw [resolve?_of_word h (bare_destination h) hw]; rfl

/-! ### Instructions -/

/-- **A legible instruction** is assembled with its constants resolved. -/
theorem instruction_parsed {l : Assembly.Line} {i : Instruction Ref} {j : Instruction UInt32}
    (h : (Statement.instruction i).Legible) (hl : l.operands = (operands i).map .ofString)
    (hj : resolve? labels i = some j) : l.instruction labels i.mnemonic = .ok j := by
  cases i with
  | halt | nop | ret =>
    obtain rfl := Option.some.inj hj
    simp only [Assembly.Line.instruction, Instruction.mnemonic, hl, operands, List.map_nil]
  | push r | pop r =>
    obtain rfl := Option.some.inj hj
    simp only [Assembly.Line.instruction, Instruction.mnemonic, hl, operands, List.map_cons,
      List.map_nil, register_name]
    rfl
  | move c src dst | alu op src dst =>
    obtain rfl := Option.some.inj hj
    simp only [Assembly.Line.instruction, Instruction.mnemonic, hl, operands, List.map_cons,
      List.map_nil, register_name]
    rfl
  | jump c dest | call dest =>
    obtain ⟨v, hv, rfl⟩ := Option.map_eq_some_iff.1 hj
    simp only [Assembly.Line.instruction, Instruction.mnemonic, hl, operands, List.map_cons,
      List.map_nil, word_destination h hv]
    rfl
  | constant c dst =>
    obtain ⟨v, hv, rfl⟩ := Option.map_eq_some_iff.1 hj
    simp only [Assembly.Line.instruction, Instruction.mnemonic, hl, operands, List.map_cons,
      List.map_nil, register_name, word_immediate h hv]
    rfl
  | store src d base =>
    obtain ⟨v, hv, rfl⟩ := Option.map_eq_some_iff.1 hj
    obtain ⟨hd, hbase⟩ : d.Legible ∧ base.isSome := h
    obtain ⟨b, rfl⟩ := Option.isSome_iff_exists.1 hbase
    simp only [Assembly.Line.instruction, Instruction.mnemonic, hl, operands, List.map_cons,
      List.map_nil, register_name, place_some hd hv]
    rfl
  | load d base dst =>
    obtain ⟨v, hv, rfl⟩ := Option.map_eq_some_iff.1 hj
    obtain ⟨hd, hbase⟩ : d.Legible ∧ base.isSome := h
    obtain ⟨b, rfl⟩ := Option.isSome_iff_exists.1 hbase
    simp only [Assembly.Line.instruction, Instruction.mnemonic, hl, operands, List.map_cons,
      List.map_nil, register_name, place_some hd hv]
    rfl

theorem resolve?_of_instruction {l : Assembly.Line} {i : Instruction Ref} {j : Instruction UInt32}
    (h : (Statement.instruction i).Legible) (hl : l.operands = (operands i).map .ofString)
    (hj : l.instruction labels i.mnemonic = .ok j) : resolve? labels i = some j := by
  have hsome : (resolve? labels i).isSome := by
    cases i with
    | halt | nop | ret | push | pop | move | alu => rfl
    | jump c dest | call dest =>
      simp only [Assembly.Line.instruction, Instruction.mnemonic, hl, operands, List.map_cons,
        List.map_nil] at hj
      cases hw : l.word labels (.ofString dest.destination) with
      | error e => rw [hw] at hj; cases hj
      | ok v => simp only [resolve?, resolve?_of_word h (bare_destination h) hw, Option.map_some,
          Option.isSome_some]
    | constant c dst =>
      simp only [Assembly.Line.instruction, Instruction.mnemonic, hl, operands, List.map_cons,
        List.map_nil] at hj
      cases hw : l.word labels (.ofString c.immediate) with
      | error e => rw [hw] at hj; cases hj
      | ok v => simp only [resolve?, resolve?_of_word h (bare_immediate h) hw, Option.map_some,
          Option.isSome_some]
    | store src d base =>
      obtain ⟨hd, hbase⟩ : d.Legible ∧ base.isSome := h
      obtain ⟨b, rfl⟩ := Option.isSome_iff_exists.1 hbase
      simp only [Assembly.Line.instruction, Instruction.mnemonic, hl, operands, List.map_cons,
        List.map_nil, register_name] at hj
      cases hp : l.place labels (.ofString (d.place (some b))) with
      | error e => rw [hp] at hj; cases hj
      | ok x => simp only [resolve?, Option.isSome_map, isSome_resolve?_of_place hd hp]
    | load d base dst =>
      obtain ⟨hd, hbase⟩ : d.Legible ∧ base.isSome := h
      obtain ⟨b, rfl⟩ := Option.isSome_iff_exists.1 hbase
      simp only [Assembly.Line.instruction, Instruction.mnemonic, hl, operands, List.map_cons,
        List.map_nil, register_name] at hj
      cases hp : l.place labels (.ofString (d.place (some b))) with
      | error e => rw [hp] at hj; cases hj
      | ok x => simp only [resolve?, Option.isSome_map, isSome_resolve?_of_place hd hp]
  obtain ⟨k, hk⟩ := Option.isSome_iff_exists.1 hsome
  rw [hk, Except.ok.inj ((instruction_parsed h hl hk).symm.trans hj)]

/-! ### Statements -/

theorem ofName?_name (s : Statement) :
    Keyword.ofName? s.name = some (match s with
      | .instruction i => .instruction i.mnemonic
      | .directive d _ => .directive d) := by
  cases s with
  | directive d operand => cases d <;> rfl
  | instruction i =>
    change Keyword.ofName? i.mnemonic.name = some (.instruction i.mnemonic)
    cases i.mnemonic with
    | move c | jump c => cases c <;> rfl
    | alu op => cases op <;> rfl
    | _ => rfl

end RpnY86.Code
