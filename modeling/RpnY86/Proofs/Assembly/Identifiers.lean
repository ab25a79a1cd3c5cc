import RpnY86.Proofs.Assembly.Operands
import RpnY86.Proofs.Assembly.Reading

/-! # Identifiers

An identifier has letters, decimal digits and underscores of any script. It has none of the
characters that give a line its shape, so it is read as a label in front of a colon
(`Identifier.readLabels_cons`). As an operand it is neither a number
(`Identifier.exists_readSigned_error`) nor a register (`ofName?_lowered_eq_none`). -/

namespace RpnY86.Assembly

/-- A name that a label can have. -/
def Identifier : Type := { name : String // isIdentifier name.toList = true }

instance : DecidableEq Identifier :=
  inferInstanceAs (DecidableEq { name : String // isIdentifier name.toList = true })

/-! ### Characters -/

theorem isIdentifierChar_of_isIdentifierStart {c : Char} (h : isIdentifierStart c = true) :
    isIdentifierChar c = true := by
  simp only [isIdentifierStart, isIdentifierChar, Bool.or_eq_true] at h ⊢
  rcases h with h | h
  · exact .inl (.inl h)
  · exact .inr h

theorem isIdentifierChar_of_mem {cs : List Char} (h : isIdentifier cs = true) :
    ∀ c ∈ cs, isIdentifierChar c = true := by
  cases cs with
  | nil => exact List.forall_mem_nil _
  | cons c cs =>
    rw [isIdentifier, Bool.and_eq_true, List.all_eq_true] at h
    exact List.forall_mem_cons.2 ⟨isIdentifierChar_of_isIdentifierStart h.1, h.2⟩

theorem isIdentifierChar_of_isBlank {c : Char} (h : Text.isBlank c = true) :
    isIdentifierChar c = false := by
  let codes : List Nat := [9, 10, 11, 12, 13, 0x20, 0x85, 0xa0, 0x1680, 0x2000, 0x2001, 0x2002,
    0x2003, 0x2004, 0x2005, 0x2006, 0x2007, 0x2008, 0x2009, 0x200a, 0x2028, 0x2029, 0x202f, 0x205f,
    0x3000]
  have hmem : c.toNat ∈ codes := by
    simp [Text.isBlank] at h
    simp [codes]
    omega
  have hall : ∀ n ∈ codes, isIdentifierChar (Char.ofNat n) = false := by decide +kernel
  rw [← Char.ofNat_toNat c]
  exact hall _ hmem

theorem isDigit_of_isIdentifierStart {c : Char} (h : isIdentifierStart c = true) :
    c.isDigit = false := by
  by_contra hdigit
  rw [Bool.not_eq_false] at hdigit
  rw [isIdentifierStart, Numeral.isLetter_of_isDigit hdigit, Bool.false_or, beq_iff_eq] at h
  rw [h] at hdigit
  cases hdigit

theorem ne_of_isIdentifierStart {c d : Char} (h : isIdentifierStart c = true)
    (hd : isIdentifierStart d = false) : c ≠ d := by
  rintro rfl
  rw [h] at hd
  cases hd

namespace Identifier

/-- The name of an identifier. -/
def name (i : Identifier) : String := i.val

/-- An identifier as it is written. -/
def text (i : Identifier) : Text := .ofString i.name

variable (i : Identifier)

theorem chars_text : Text.chars i.text = i.name.toList := chars_ofString i.name

theorem exists_cons : ∃ c cs, i.name.toList = c :: cs ∧ isIdentifierStart c = true := by
  obtain ⟨name, h⟩ := i
  change ∃ c cs, name.toList = c :: cs ∧ isIdentifierStart c = true
  cases hname : name.toList with
  | nil =>
    rw [hname] at h
    cases h
  | cons c cs =>
    rw [hname, isIdentifier, Bool.and_eq_true] at h
    exact ⟨c, cs, rfl, h.1⟩

theorem text_ne_nil : i.text ≠ [] := by
  obtain ⟨c, cs, h, -⟩ := i.exists_cons
  intro hnil
  rw [List.map_eq_nil_iff.1 hnil] at h
  cases h

theorem is_of_mem_text {d : Char} (hd : isIdentifierChar d = false) :
    ∀ g ∈ i.text, g.is d = false := by
  intro g hg
  obtain ⟨c, hc, rfl⟩ := List.mem_map.1 hg
  rw [Glyph.is, beq_eq_false_iff_ne]
  rintro hcd
  obtain rfl := Glyph.char.inj hcd
  rw [isIdentifierChar_of_mem i.property c hc] at hd
  cases hd

theorem blankGlyph_of_mem_text : ∀ g ∈ i.text, blankGlyph g = false := by
  intro g hg
  obtain ⟨c, hc, rfl⟩ := List.mem_map.1 hg
  by_contra hblank
  rw [Bool.not_eq_false] at hblank
  have hno := isIdentifierChar_of_isBlank hblank
  rw [isIdentifierChar_of_mem i.property c hc] at hno
  cases hno

end Identifier

theorem isIdentifier_of_mem_chars {d : Char} (hd : isIdentifierChar d = false) {t : Text}
    (h : .char d ∈ t) : isIdentifier (Text.chars t) = false := by
  by_contra hid
  rw [Bool.not_eq_false] at hid
  rw [isIdentifierChar_of_mem hid d (List.mem_map.2 ⟨_, h, rfl⟩)] at hd
  cases hd

/-- A text that is an identifier has no stray bytes. -/
theorem exists_text_of_isIdentifier {t : Text} (h : isIdentifier (Text.chars t) = true) :
    ∃ i : Identifier, t = i.text := by
  refine ⟨⟨Text.toString t, by rw [Text.toString, String.toList_ofList]; exact h⟩, ?_⟩
  have hall : ∀ g ∈ t, Glyph.char g.toChar = g := by
    intro g hg
    cases g with
    | char c => rfl
    | stray b =>
      have hc := isIdentifierChar_of_mem h Glyph.replacement (List.mem_map.2 ⟨_, hg, rfl⟩)
      exact absurd hc (by decide +kernel)
  change t = ((String.ofList (t.map Glyph.toChar)).toList.map Glyph.char)
  rw [String.toList_ofList, List.map_map]
  exact ((List.map_congr_left hall).trans (List.map_id t)).symm

/-! ### Labels -/

namespace Identifier

variable (i : Identifier)

/-- An identifier in front of a colon is a label, whatever white space is around it. -/
theorem readLabels_cons {p q : Text} (hp : ∀ g ∈ p, blankGlyph g = true)
    (hq : ∀ g ∈ q, blankGlyph g = true) (number : Int) (next : Text) (parts : List Text) :
    readLabels number (p ++ i.text ++ q) (next :: parts) =
      (readLabels number next parts).map fun r => (i.name :: r.1, r.2) := by
  have hempty : i.text.isEmpty = false := List.isEmpty_eq_false_iff.2 i.text_ne_nil
  have hspace : (i.text.any fun g => g.is ' ' || g.is '\t') = false := by
    rw [List.any_eq_false]
    intro g hg
    rw [i.is_of_mem_text rfl g hg, i.is_of_mem_text rfl g hg]
    exact Bool.false_ne_true
  have hname : isIdentifier i.name.toList = true := i.property
  simp only [readLabels, trim_padded hp hq i.blankGlyph_of_mem_text, hempty, hspace, hname,
    Text.toString, i.chars_text, String.ofList_toList]
  cases readLabels number next parts <;> rfl

end Identifier

theorem isIdentifier_of_readLabels {number : Int} {part : Text} {parts : List Text}
    {labels : List String} {statement : Text}
    (h : readLabels number part parts = .ok (labels, statement)) :
    ∀ s ∈ labels, isIdentifier s.toList = true := by
  induction parts generalizing part labels with
  | nil =>
    cases h
    exact List.forall_mem_nil _
  | cons next parts ih =>
    rw [readLabels] at h
    split_ifs at h with hempty hspace hid
    · cases h
      exact List.forall_mem_nil _
    · cases hrest : readLabels number next parts with
      | error e =>
        rw [hrest] at h
        cases h
      | ok r =>
        rw [hrest] at h
        cases h
        refine List.forall_mem_cons.2 ⟨?_, ih hrest⟩
        rw [Text.toString, String.toList_ofList]
        exact hid

/-- **The labels of a line** that was read are identifiers. -/
theorem Line.isIdentifier_of_read {number : Int} {source : Text} {l : Line}
    (h : Line.read number source = .ok l) : ∀ s ∈ l.labels, isIdentifier s.toList = true := by
  cases hlabels : readLabels number (splitAtChar ':' (source.takeWhile (!·.is '#'))).1
    (splitAtChar ':' (source.takeWhile (!·.is '#'))).2 with
  | error e =>
    unfold Line.read at h
    simp only at h
    rw [hlabels] at h
    cases h
  | ok r =>
    rw [Line.read_eq hlabels] at h
    cases h
    exact isIdentifier_of_readLabels hlabels

/-! ### Operands -/

theorem Identifier.exists_readSigned_error (i : Identifier) (bits : Nat) (cs : List Char) :
    ∃ e, Numeral.readSigned .marked bits (i.name.toList ++ cs) = .error e := by
  obtain ⟨c, ds, h, hc⟩ := i.exists_cons
  rw [h]
  exact Numeral.exists_readSigned_error (isDigit_of_isIdentifierStart hc)
    (ne_of_isIdentifierStart hc rfl) (ne_of_isIdentifierStart hc rfl) bits (ds ++ cs)

/-- A register has its mark in front. -/
theorem ofName?_lowered_eq_none {t : Text} (h : (Text.chars t).head? ≠ some '%') :
    Y86.Reg.ofName? (lowered t) = none := by
  cases hr : Y86.Reg.ofName? (lowered t) with
  | none => rfl
  | some r =>
    have hmem := mem_registerNames.2 hr
    have hfolds := (lowered_eq_iff (isNameChar_of_mem_registerNames hmem)).1 rfl
    have hall : ∀ p ∈ registerNames, p.1.toList.head? = some '%' := by simp [registerNames]
    obtain ⟨ds, hds⟩ := List.head?_eq_some_iff.1 (hall _ hmem)
    rw [hds] at hfolds
    obtain ⟨c, cs, hc, -, hcs⟩ := List.forall₂_cons_right_iff.1 hfolds
    have hmark : c = '%' := by
      rcases hc with hc | hc | ⟨-, hc⟩ | ⟨-, hc⟩
      · exact hc
      · exact hc
      · cases hc
      · cases hc
    rw [hcs, hmark] at h
    exact absurd rfl h

end RpnY86.Assembly
