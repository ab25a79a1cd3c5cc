import RpnY86.Code.Line
import RpnY86.Proofs.Assembly.Identifiers
import RpnY86.Proofs.Numeral.RoundTrip

/-! # Generated lines are read back

A line of generated code is *legible* if its label is a name, its operands are words, and its note
is a comment. Legible lines, written as text, are read back as they were: `read_text` for one line
and `readLines_render` for a whole program text. -/

namespace RpnY86.Code

open Assembly (blankGlyph fields separatesFields splitAtChar)
open Y86 (Instruction Reg)

/-! ### Words -/

/-- A character that can stand in a field. -/
def isPlain (c : Char) : Bool :=
  decide (33 ≤ c.toNat) && decide (c.toNat ≤ 126) && c != ',' && c != ':' && c != '#'

/-- A field as written. -/
def IsWord (cs : List Char) : Prop := cs ≠ [] ∧ ∀ c ∈ cs, isPlain c = true

instance (cs : List Char) : Decidable (IsWord cs) :=
  decidable_of_iff (cs ≠ [] ∧ cs.all isPlain = true) (by rw [IsWord, List.all_eq_true])

/-- A name: a letter, and behind it letters, digits and underscores. -/
def isName : List Char → Bool
  | [] => false
  | c :: cs => c.isAlpha && cs.all fun c => c.isAlphanum || c == '_'

/-- A note: a comment with tabs in front of it, or nothing but tabs. -/
def isNote (cs : List Char) : Bool :=
  let text := cs.dropWhile (· == '\t')
  (text.isEmpty || text.head? == some '#') && !text.contains '\n'

section isPlain

variable {c : Char} (h : isPlain c = true)

include h

theorem separatesFields_of_isPlain : separatesFields (.char c) = false := by
  simp [isPlain] at h
  simp [separatesFields, blankGlyph, Text.isBlank, Glyph.is, h]
  omega

theorem is_of_isPlain {d : Char} (hd : isPlain d = false) : (Glyph.char c).is d = false := by
  have hne : c ≠ d := by
    rintro rfl
    rw [h] at hd
    exact nomatch hd
  simp [Glyph.is, hne]

end isPlain

theorem isPlain_of_isAlphanum {c : Char} (h : c.isAlphanum = true) : isPlain c = true := by
  have hne {d : Char} (hd : d.isAlphanum = false) : c ≠ d := by
    rintro rfl
    rw [h] at hd
    exact nomatch hd
  have hrange : 33 ≤ c.toNat ∧ c.toNat ≤ 126 := by
    simp [Char.isAlphanum, Char.isAlpha, Char.isUpper, Char.isLower, Char.isDigit,
      UInt32.le_iff_toNat_le] at h
    omega
  have hcomma : c ≠ ',' := hne rfl
  have hcolon : c ≠ ':' := hne rfl
  have hsharp : c ≠ '#' := hne rfl
  simp [isPlain, hrange, hcomma, hcolon, hsharp]

theorem isWord_of_isName {cs : List Char} (h : isName cs = true) : IsWord cs := by
  cases cs with
  | nil => exact nomatch h
  | cons c cs =>
    simp only [isName, Bool.and_eq_true, List.all_eq_true, Bool.or_eq_true, beq_iff_eq] at h
    refine ⟨List.cons_ne_nil c cs, fun d hd => ?_⟩
    rcases List.mem_cons.1 hd with rfl | hd
    · exact isPlain_of_isAlphanum (by simp [Char.isAlphanum, h.1])
    · rcases h.2 d hd with hd | rfl
      · exact isPlain_of_isAlphanum hd
      · rfl

theorem isIdentifier_of_isName {cs : List Char} (h : isName cs = true) :
    Assembly.isIdentifier cs = true := by
  have hlow {c : Char} (hc : c.isAlphanum = true) : c.toNat < 128 := by
    simp [Char.isAlphanum, Char.isAlpha, Char.isUpper, Char.isLower, Char.isDigit,
      UInt32.le_iff_toNat_le] at hc
    omega
  cases cs with
  | nil => exact nomatch h
  | cons c cs =>
    simp only [isName, Bool.and_eq_true, List.all_eq_true, Bool.or_eq_true, beq_iff_eq] at h
    simp only [Assembly.isIdentifier, Assembly.isIdentifierStart, Assembly.isIdentifierChar,
      Text.isLetter, Text.isDecimalDigit, Bool.and_eq_true, List.all_eq_true, Bool.or_eq_true,
      beq_iff_eq]
    refine ⟨.inl ?_, fun d hd => ?_⟩
    · rw [if_pos (hlow (by simp [Char.isAlphanum, h.1])), h.1]
    · rcases h.2 d hd with hd | rfl
      · rw [if_pos (hlow hd), if_pos (hlow hd)]
        simp only [Char.isAlphanum, Bool.or_eq_true] at hd
        exact .inl hd
      · exact .inr rfl

theorem readSigned_of_isName {cs : List Char} (h : isName cs = true) (bits : Nat) :
    Numeral.readSigned .marked bits cs = .error .malformed := by
  cases cs with
  | nil => exact nomatch h
  | cons c cs =>
    simp only [isName, Bool.and_eq_true] at h
    have hc := h.1
    simp [Char.isAlpha, Char.isUpper, Char.isLower, UInt32.le_iff_toNat_le] at hc
    have hd : Numeral.digitValue? c =
        some (if 97 ≤ c.toNat then c.toNat - 87 else c.toNat - 55) := by
      unfold Numeral.digitValue?
      grind
    exact Numeral.readSigned_letter hd (by split <;> omega) bits cs

/-! ### Numbers as words -/

theorem isAlphanum_of_digitValue? {c : Char} {d : Nat} (h : Numeral.digitValue? c = some d) :
    c.isAlphanum = true := by
  simp [Char.isAlphanum, Char.isAlpha, Char.isUpper, Char.isLower, Char.isDigit,
    UInt32.le_iff_toNat_le]
  unfold Numeral.digitValue? at h
  grind

theorem isAlphanum_of_mem_digits {radix n : Nat} (hr : 2 ≤ radix) (hr' : radix ≤ 16) {c : Char}
    (h : c ∈ Numeral.digits radix n) : c.isAlphanum = true := by
  obtain ⟨d, hd, -⟩ := Numeral.areDigits_digits hr hr' n c h
  exact isAlphanum_of_digitValue? hd

theorem isWord_signedDigits {radix : Nat} (hr : 2 ≤ radix) (hr' : radix ≤ 16) (n : Int) :
    IsWord (Numeral.signedDigits radix n) := by
  cases n with
  | ofNat k =>
    exact ⟨Numeral.digits_ne_nil radix k, fun c hc =>
      isPlain_of_isAlphanum (isAlphanum_of_mem_digits hr hr' hc)⟩
  | negSucc k =>
    refine ⟨List.cons_ne_nil _ _, fun c hc => ?_⟩
    rcases List.mem_cons.1 hc with rfl | hc
    · rfl
    · exact isPlain_of_isAlphanum (isAlphanum_of_mem_digits hr hr' hc)

theorem isWord_decimal (n : Int) : IsWord (Numeral.decimal n).toList := by
  rw [Numeral.decimal, String.toList_ofList]
  exact isWord_signedDigits (by omega) (by omega) n

theorem isWord_hex (n : Int) : IsWord (Numeral.hex n).toList := by
  rw [Numeral.hex, String.toList_ofList]
  exact isWord_signedDigits (by omega) (by omega) n

theorem IsWord.append {cs ds : List Char} (h : IsWord cs) (h' : ∀ c ∈ ds, isPlain c = true) :
    IsWord (cs ++ ds) := by
  refine ⟨fun h0 => h.1 (List.append_eq_nil_iff.1 h0).1, fun c hc => ?_⟩
  rcases List.mem_append.1 hc with hc | hc
  · exact h.2 c hc
  · exact h' c hc

theorem IsWord.prepend {cs ds : List Char} (h : IsWord cs) (h' : ∀ c ∈ ds, isPlain c = true) :
    IsWord (ds ++ cs) := by
  refine ⟨fun h0 => h.1 (List.append_eq_nil_iff.1 h0).2, fun c hc => ?_⟩
  rcases List.mem_append.1 hc with hc | hc
  · exact h' c hc
  · exact h.2 c hc

theorem IsWord.unbroken {cs : List Char} (h : IsWord cs) : '\n' ∉ cs := by
  intro hc
  exact nomatch h.2 '\n' hc

/-! ### Legible lines -/

/-- A constant that can be written: a number of 32 bits, or a name. -/
def Ref.Legible : Ref → Prop
  | .literal n => -2 ^ 31 ≤ n ∧ n < 2 ^ 31
  | .label name => isName name.toList = true

/-- A statement that can be written. -/
def Statement.Legible : Statement → Prop
  | .directive _ operand => IsWord operand.toList
  | .instruction i =>
    match i with
    | .constant v _ => v.Legible
    | .jump _ dest | .call dest => dest.Legible
    | .store _ d base | .load d base _ => d.Legible ∧ base.isSome
    | _ => True

/-- A line that can be written. -/
structure Line.Legible (l : Line) : Prop where
  label : ∀ name, l.label = some name → isName name.toList = true
  gap : ∀ c ∈ l.gap.toList, c = '\t'
  statement : ∀ s, l.statement = some s → s.Legible
  note : isNote l.note.toList = true

theorem isWord_register (r : Reg) : IsWord r.name.toList := by
  cases r <;> decide

theorem Ref.Legible.destination {r : Ref} (h : r.Legible) : IsWord r.destination.toList := by
  cases r with
  | literal n => exact isWord_decimal n
  | label name => exact isWord_of_isName h

theorem Ref.Legible.immediate {r : Ref} (h : r.Legible) : IsWord r.immediate.toList := by
  cases r with
  | literal n =>
    rw [Ref.immediate, String.toList_append]
    exact IsWord.append (by decide) (isWord_decimal n).2
  | label name => exact isWord_of_isName h

theorem Ref.Legible.place {r : Ref} (h : r.Legible) (base : Reg) :
    IsWord (r.place (some base)).toList := by
  have hbase : IsWord ("(" ++ base.name ++ ")").toList := by
    cases base <;> decide
  have hplain : ∀ c ∈ r.displacement.toList, isPlain c = true := by
    unfold Ref.displacement
    split
    · exact List.all_eq_true.1 (by decide)
    · exact h.destination.2
  rw [Ref.place, String.append_assoc, String.append_assoc, String.toList_append,
    ← String.append_assoc]
  exact hbase.prepend hplain

theorem Statement.Legible.operands {s : Statement} (h : s.Legible) :
    ∀ o ∈ s.operands, IsWord o.toList := by
  have hpair {a b : String} (ha : IsWord a.toList) (hb : IsWord b.toList) :
      ∀ o ∈ [a, b], IsWord o.toList :=
    List.forall_mem_cons.2 ⟨ha, List.forall_mem_singleton.2 hb⟩
  cases s with
  | directive d operand => exact List.forall_mem_singleton.2 h
  | instruction i =>
    cases i with
    | halt | nop | ret => exact List.forall_mem_nil _
    | push r | pop r => exact List.forall_mem_singleton.2 (isWord_register r)
    | move c src dst | alu op src dst => exact hpair (isWord_register src) (isWord_register dst)
    | jump c dest | call dest => exact List.forall_mem_singleton.2 (Ref.Legible.destination h)
    | constant v dst => exact hpair (Ref.Legible.immediate h) (isWord_register dst)
    | store src d base =>
      obtain ⟨hd, hbase⟩ : d.Legible ∧ base.isSome := h
      obtain ⟨b, rfl⟩ := Option.isSome_iff_exists.1 hbase
      exact hpair (isWord_register src) (hd.place b)
    | load d base dst =>
      obtain ⟨hd, hbase⟩ : d.Legible ∧ base.isSome := h
      obtain ⟨b, rfl⟩ := Option.isSome_iff_exists.1 hbase
      exact hpair (hd.place b) (isWord_register dst)

/-- The name that a statement begins with is a word in lower case. -/
theorem Statement.name_spec (s : Statement) :
    IsWord s.name.toList ∧ Assembly.lowered (.ofString s.name) = s.name := by
  cases s with
  | directive d operand =>
    change IsWord d.name.toList ∧ Assembly.lowered (.ofString d.name) = d.name
    cases d <;> exact ⟨by decide, by decide⟩
  | instruction i =>
    change IsWord i.mnemonic.name.toList ∧
      Assembly.lowered (.ofString i.mnemonic.name) = i.mnemonic.name
    cases i.mnemonic with
    | move c | jump c => cases c <;> exact ⟨by decide, by decide⟩
    | alu op => cases op <;> exact ⟨by decide, by decide⟩
    | _ => exact ⟨by decide, by decide⟩

/-! ### Reading one line -/

theorem ofString_append (s t : String) :
    Text.ofString (s ++ t) = Text.ofString s ++ Text.ofString t := by
  simp [Text.ofString]

theorem separatesFields_of_isWord {s : String} (h : IsWord s.toList) :
    ∀ g ∈ Text.ofString s, separatesFields g = false := by
  intro g hg
  obtain ⟨c, hc, rfl⟩ := List.mem_map.1 hg
  exact separatesFields_of_isPlain (h.2 c hc)

theorem is_of_isWord {s : String} (h : IsWord s.toList) {d : Char} (hd : isPlain d = false) :
    ∀ g ∈ Text.ofString s, g.is d = false := by
  intro g hg
  obtain ⟨c, hc, rfl⟩ := List.mem_map.1 hg
  exact is_of_isPlain (h.2 c hc) hd

theorem fields_separators {u : Text} (hu : ∀ g ∈ u, separatesFields g = true) : fields u = [] := by
  have h := Assembly.fields_separators_append hu []
  rwa [List.append_nil] at h

theorem fields_isWord {s : String} (h : IsWord s.toList) {t : Text}
    (ht : ∀ g ∈ t.head?, separatesFields g = true) :
    fields (.ofString s ++ t) = .ofString s :: fields t := by
  refine Assembly.fields_word_append (fun h0 => h.1 ?_) (separatesFields_of_isWord h) ht
  exact List.map_eq_nil_iff.1 h0

theorem fields_intercalate {ws : List String} (hws : ∀ w ∈ ws, IsWord w.toList) {u : Text}
    (hu : ∀ g ∈ u, separatesFields g = true) :
    fields (.ofString (", ".intercalate ws) ++ u) = ws.map .ofString := by
  induction ws with
  | nil => exact fields_separators hu
  | cons w ws ih =>
    have hw := hws w (List.mem_cons_self ..)
    have ih := ih fun v hv => hws v (List.mem_cons_of_mem w hv)
    cases ws with
    | nil =>
      rw [String.intercalate_singleton, fields_isWord hw fun g hg => hu g (List.mem_of_mem_head? hg),
        fields_separators hu]
      rfl
    | cons v ws =>
      have hcomma : ∀ g ∈ Text.ofString ", ", separatesFields g = true := by decide
      rw [String.intercalate_cons_cons, String.append_assoc, ofString_append, List.append_assoc,
        ofString_append, List.append_assoc, fields_isWord hw fun g hg => hcomma g ?_,
        Assembly.fields_separators_append hcomma, ih]
      · rfl
      · exact List.mem_of_mem_head? hg

theorem Statement.Legible.fields_text {s : Statement} (h : s.Legible) {u : Text}
    (hu : ∀ g ∈ u, separatesFields g = true) :
    fields (.ofString s.text ++ u) = .ofString s.name :: s.operands.map .ofString := by
  have hname := s.name_spec.1
  cases ho : s.operands with
  | nil =>
    have htext : s.text = s.name := by rw [Statement.text, ho]
    rw [htext, fields_isWord hname fun g hg => hu g (List.mem_of_mem_head? hg),
      fields_separators hu]
    rfl
  | cons o os =>
    have htext : s.text = s.name ++ (" " ++ ", ".intercalate (o :: os)) := by
      rw [Statement.text, ho, ← String.append_assoc]
    have hspace : ∀ g ∈ Text.ofString " ", separatesFields g = true := by decide
    rw [htext, ofString_append, List.append_assoc, ofString_append, List.append_assoc,
      fields_isWord hname fun g hg => hspace g ?_, Assembly.fields_separators_append hspace,
      fields_intercalate (ho ▸ h.operands) hu]
    exact List.mem_of_mem_head? hg

/-- A character of a label, a statement or the blanks around them. -/
def isInk (c : Char) : Bool := isPlain c || c == ' ' || c == ',' || c == '\t'

theorem IsWord.ink {s : String} (h : IsWord s.toList) : ∀ c ∈ s.toList, isInk c = true := by
  intro c hc
  simp [isInk, h.2 c hc]

theorem ink_intercalate {ws : List String} (hws : ∀ w ∈ ws, IsWord w.toList) :
    ∀ c ∈ (", ".intercalate ws).toList, isInk c = true := by
  induction ws with
  | nil => exact List.forall_mem_nil _
  | cons w ws ih =>
    have hw := (hws w (List.mem_cons_self ..)).ink
    have ih := ih fun v hv => hws v (List.mem_cons_of_mem w hv)
    cases ws with
    | nil => rwa [String.intercalate_singleton]
    | cons v ws =>
      rw [String.intercalate_cons_cons, String.toList_append, String.toList_append]
      have hcomma : ∀ c ∈ ", ".toList, isInk c = true := List.all_eq_true.1 (by decide)
      exact List.forall_mem_append.2 ⟨List.forall_mem_append.2 ⟨hw, hcomma⟩, ih⟩

theorem Statement.Legible.ink_text {s : Statement} (h : s.Legible) :
    ∀ c ∈ s.text.toList, isInk c = true := by
  have hname := s.name_spec.1.ink
  have hops := ink_intercalate h.operands
  unfold Statement.text
  split
  · exact hname
  · have hspace : ∀ c ∈ " ".toList, isInk c = true := List.all_eq_true.1 (by decide)
    rw [String.toList_append, String.toList_append]
    exact List.forall_mem_append.2 ⟨List.forall_mem_append.2 ⟨hname, hspace⟩, hops⟩

/-! ### Lines -/

namespace Line

/-- The label of a line as text. -/
def labelText (l : Line) : String := l.label.elim "" (· ++ ":")

/-- The statement of a line as text, with the blanks in front of it. -/
def statementText (l : Line) : String := l.gap ++ l.statement.elim "" Statement.text

/-- A line as text, without its end. -/
def text (l : Line) : String := l.labelText ++ l.statementText ++ l.note

theorem render_eq_text (l : Line) : l.render = l.text ++ "\n" := by
  obtain ⟨label, gap, statement, note⟩ := l
  cases label <;> cases statement <;>
    simp [render, text, labelText, statementText, String.append_assoc]

/-- A line as it is read. -/
def parsed (number : Int) (l : Line) : Assembly.Line where
  number := number
  labels := l.label.toList
  mnemonic := l.statement.map Statement.name
  operands := l.statement.elim [] fun s => s.operands.map .ofString

end Line

/-- A note is cut off at its comment, so that at most blanks are left of it. -/
theorem takeWhile_append_note {t : Text} (ht : ∀ g ∈ t, g.is '#' = false) {note : String}
    (h : isNote note.toList = true) :
    ∃ u : Text, (t ++ .ofString note).takeWhile (!·.is '#') = t ++ u ∧
      ∀ g ∈ u, g = .char '\t' := by
  simp only [isNote, Bool.and_eq_true, Bool.or_eq_true, List.isEmpty_iff, beq_iff_eq] at h
  have htabs : ∀ c ∈ note.toList.takeWhile (· == '\t'), c = '\t' := fun c hc => by
    simpa using List.mem_takeWhile_imp hc
  refine ⟨(note.toList.takeWhile (· == '\t')).map .char, ?_, ?_⟩
  · rw [List.takeWhile_append_of_pos fun g hg => by rw [ht g hg]; rfl]
    congr 1
    rw [Text.ofString, ← List.takeWhile_append_dropWhile (p := (· == '\t')) (l := note.toList),
      List.map_append, List.takeWhile_append_of_pos]
    · rw [List.takeWhile_append_dropWhile]
      rcases h.1 with h0 | h0
      · rw [h0]
        exact List.append_nil _
      · obtain ⟨cs, hcs⟩ := List.head?_eq_some_iff.1 h0
        rw [hcs]
        exact List.append_nil _
    · intro g hg
      obtain ⟨c, hc, rfl⟩ := List.mem_map.1 hg
      rw [htabs c hc]
      rfl
  · intro g hg
    obtain ⟨c, hc, rfl⟩ := List.mem_map.1 hg
    rw [htabs c hc]

theorem not_mem_of_isNote {cs : List Char} (h : isNote cs = true) : '\n' ∉ cs := by
  intro hc
  rw [← List.takeWhile_append_dropWhile (p := (· == '\t')) (l := cs)] at hc
  rcases List.mem_append.1 hc with hc | hc
  · exact nomatch List.mem_takeWhile_imp hc
  · simp only [isNote, Bool.and_eq_true, Bool.not_eq_true', List.contains_eq_mem,
      decide_eq_false_iff_not] at h
    exact h.2 hc

theorem is_of_ink {s : String} (h : ∀ c ∈ s.toList, isInk c = true) {d : Char}
    (hd : isInk d = false) : ∀ g ∈ Text.ofString s, g.is d = false := by
  intro g hg
  obtain ⟨c, hc, rfl⟩ := List.mem_map.1 hg
  have hne : c ≠ d := by
    rintro rfl
    rw [h c hc] at hd
    exact nomatch hd
  simp [Glyph.is, hne]

namespace Line.Legible

variable {l : Line} (h : l.Legible)

include h

theorem ink_statementText : ∀ c ∈ l.statementText.toList, isInk c = true := by
  rw [statementText, String.toList_append]
  refine List.forall_mem_append.2 ⟨fun c hc => ?_, ?_⟩
  · rw [h.gap c hc]
    rfl
  · cases hs : l.statement with
    | none => exact List.forall_mem_nil _
    | some s => exact (h.statement s hs).ink_text

theorem fields_statementText {u : Text} (hu : ∀ g ∈ u, g = .char '\t') :
    fields (.ofString l.statementText ++ u) =
      l.statement.elim [] fun s => .ofString s.name :: s.operands.map .ofString := by
  have hu' : ∀ g ∈ u, separatesFields g = true := fun g hg => by
    rw [hu g hg]
    rfl
  have hgap : ∀ g ∈ Text.ofString l.gap, separatesFields g = true := fun g hg => by
    obtain ⟨c, hc, rfl⟩ := List.mem_map.1 hg
    rw [h.gap c hc]
    rfl
  rw [statementText, ofString_append, List.append_assoc, Assembly.fields_separators_append hgap]
  cases hs : l.statement with
  | none => exact fields_separators hu'
  | some s => exact (h.statement s hs).fields_text hu'

theorem readLabels_text (number : Int) {u : Text} (hu : ∀ g ∈ u, g = .char '\t') :
    let code := Text.ofString l.labelText ++ (.ofString l.statementText ++ u)
    Assembly.readLabels number (splitAtChar ':' code).1 (splitAtChar ':' code).2 =
      .ok (l.label.toList, .ofString l.statementText ++ u) := by
  have hrest : splitAtChar ':' (.ofString l.statementText ++ u) =
      (.ofString l.statementText ++ u, []) := by
    refine Assembly.splitAtChar_eq_self (List.forall_mem_append.2 ⟨?_, fun g hg => ?_⟩)
    · exact is_of_ink h.ink_statementText (by decide)
    · rw [hu g hg]
      rfl
  cases hl : l.label with
  | none =>
    have ht : Text.ofString l.labelText = [] := by
      rw [labelText, hl]
      rfl
    simp only [ht, List.nil_append, hrest]
    rfl
  | some name =>
    let i : Assembly.Identifier := ⟨name, isIdentifier_of_isName (h.label name hl)⟩
    have ht : Text.ofString l.labelText = i.text ++ [.char ':'] := by
      rw [labelText, hl]
      exact ofString_append name ":"
    have hread := i.readLabels_cons (List.forall_mem_nil _) (List.forall_mem_nil _) number
      (.ofString l.statementText ++ u) []
    rw [List.nil_append, List.append_nil] at hread
    simp only [ht, List.append_assoc, List.singleton_append]
    rw [Assembly.splitAtChar_append (i.is_of_mem_text rfl), hrest]
    exact hread

theorem is_labelText {d : Char} (hd : isPlain d = false) (hd' : d ≠ ':') :
    ∀ g ∈ Text.ofString l.labelText, g.is d = false := by
  rw [labelText]
  cases hl : l.label with
  | none => exact List.forall_mem_nil _
  | some name =>
    change ∀ g ∈ Text.ofString (name ++ ":"), g.is d = false
    rw [ofString_append]
    have hword := isWord_of_isName (h.label name hl)
    refine List.forall_mem_append.2 ⟨is_of_isWord hword hd, List.forall_mem_singleton.2 ?_⟩
    exact beq_false_of_ne fun h0 => hd' (Glyph.char.inj h0).symm

/-- **A legible line is read as it was.** -/
theorem read_text (number : Int) :
    Assembly.Line.read number (.ofString l.text) = .ok (l.parsed number) := by
  obtain ⟨u, hcode, hu⟩ := takeWhile_append_note
    (List.forall_mem_append.2
      ⟨h.is_labelText rfl (by decide), is_of_ink h.ink_statementText rfl⟩) h.note
  have hlabels := h.readLabels_text number hu
  rw [← List.append_assoc, ← hcode] at hlabels
  rw [text, ofString_append, ofString_append, Assembly.Line.read_eq hlabels,
    h.fields_statementText hu, parsed]
  cases l.statement with
  | none => rfl
  | some s =>
    simp only [Option.elim_some, List.head?_cons, Option.map_some, s.name_spec.2, List.tail_cons]

theorem unbroken_text : ∀ g ∈ Text.ofString l.text, g.is '\n' = false := by
  rw [text, ofString_append, ofString_append]
  refine List.forall_mem_append.2 ⟨List.forall_mem_append.2
    ⟨h.is_labelText rfl (by decide), is_of_ink h.ink_statementText rfl⟩, fun g hg => ?_⟩
  obtain ⟨c, hc, rfl⟩ := List.mem_map.1 hg
  have hne : c ≠ '\n' := fun h0 => not_mem_of_isNote h.note (h0 ▸ hc)
  simp [Glyph.is, hne]

end Line.Legible

/-! ### Whole texts -/

/-- Lines as they are read, numbered from `n` on. -/
def listing : Int → List Line → List Assembly.Line
  | _, [] => []
  | n, l :: ls => l.parsed n :: listing (n + 1) ls

theorem listing_append (n : Int) (ls ms : List Line) :
    listing n (ls ++ ms) = listing n ls ++ listing (n + ls.length) ms := by
  induction ls generalizing n with
  | nil => simp [listing]
  | cons l ls ih =>
    simp only [List.cons_append, listing, ih, List.length_cons]
    congr 3
    omega

theorem render_append (ls ms : List Line) : render (ls ++ ms) = render ls ++ render ms := by
  rw [render, List.map_append, String.join_append]
  rfl

theorem ofString_render_cons (l : Line) (ls : List Line) :
    Text.ofString (render (l :: ls)) =
      Text.ofString l.text ++ .char '\n' :: Text.ofString (render ls) := by
  rw [render, List.map_cons, String.join_cons, Line.render_eq_text, ofString_append,
    ofString_append, List.append_assoc]
  rfl

theorem legible_blank : Line.blank.Legible where
  label _ hn := nomatch hn
  gap _ hc := nomatch hc
  statement _ hs := nomatch hs
  note := rfl

/-- The parts of a text that was put together from lines. Behind the last end is an empty one. -/
theorem splitAtChar_render {ls : List Line} (h : ∀ l ∈ ls, l.Legible) :
    (splitAtChar '\n' (.ofString (render ls))).1 ::
        (splitAtChar '\n' (.ofString (render ls))).2 =
      (ls ++ [Line.blank]).map fun l => Text.ofString l.text := by
  induction ls with
  | nil => rfl
  | cons l ls ih =>
    have hl := h l (List.mem_cons_self ..)
    have ih := ih fun m hm => h m (List.mem_cons_of_mem l hm)
    rw [ofString_render_cons, Assembly.splitAtChar_append hl.unbroken_text, List.cons_append,
      List.map_cons, ← ih]

theorem mapM_read {ls : List Line} (h : ∀ l ∈ ls, l.Legible) (n : Nat) :
    ((ls.map fun l => Text.ofString l.text).zipIdx n).mapM
      (fun (t, k) => Assembly.Line.read (k : Nat) t) = .ok (listing n ls) := by
  induction ls generalizing n with
  | nil => rfl
  | cons l ls ih =>
    have hl := (h l (List.mem_cons_self ..)).read_text n
    have ih := ih (fun m hm => h m (List.mem_cons_of_mem l hm)) (n + 1)
    rw [List.map_cons, List.zipIdx_cons, List.mapM_cons, ih]
    simp only [hl]
    rfl

/-- **Legible lines are read as they were.** -/
theorem readLines_render {ls : List Line} (h : ∀ l ∈ ls, l.Legible) :
    Assembly.readLines (.ofString (render ls)) = .ok (listing 1 (ls ++ [.blank])) := by
  have hall : ∀ l ∈ ls ++ [Line.blank], l.Legible :=
    List.forall_mem_append.2 ⟨h, List.forall_mem_singleton.2 legible_blank⟩
  rw [Assembly.readLines]
  simp only [splitAtChar_render h]
  exact mapM_read hall 1

end RpnY86.Code
