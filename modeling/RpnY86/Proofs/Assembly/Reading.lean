import Mathlib
import RpnY86.Assembly.Line

/-! # Cutting lines into labels and fields

What the cutting of text gives on text that was put together: the parts between given characters,
the fields between separators, a label in front of a statement. -/

theorem RpnY86.chars_ofString (s : String) : Text.chars (Text.ofString s) = s.toList := by
  simp [Text.chars, Text.ofString, Glyph.toChar, Function.comp_def]

namespace RpnY86.Assembly

variable {c : Char} {t u w : Text}

/-! ### Parts -/

theorem splitAtChar_cons (c : Char) (g : Glyph) (t : Text) :
    splitAtChar c (g :: t) =
      if g.is c then ([], (splitAtChar c t).1 :: (splitAtChar c t).2)
      else (g :: (splitAtChar c t).1, (splitAtChar c t).2) := by
  simp only [splitAtChar, List.foldr_cons]

theorem splitAtChar_eq_self (h : ∀ g ∈ t, g.is c = false) : splitAtChar c t = (t, []) := by
  induction t with
  | nil => rfl
  | cons g t ih =>
    rw [splitAtChar_cons, h g (List.mem_cons_self ..), if_neg Bool.false_ne_true,
      ih fun g' hg' => h g' (List.mem_cons_of_mem g hg')]

theorem splitAtChar_append (h : ∀ g ∈ t, g.is c = false) (u : Text) :
    splitAtChar c (t ++ .char c :: u) = (t, (splitAtChar c u).1 :: (splitAtChar c u).2) := by
  induction t with
  | nil =>
    rw [List.nil_append, splitAtChar_cons, if_pos]
    simp [Glyph.is]
  | cons g t ih =>
    rw [List.cons_append, splitAtChar_cons, h g (List.mem_cons_self ..),
      if_neg Bool.false_ne_true, ih fun g' hg' => h g' (List.mem_cons_of_mem g hg')]

/-! ### Fields -/

/-- The first field of a text, up to its first separator, and the others. -/
def firstField (t : Text) : Text × List Text :=
  t.foldr (fun g (word, words) =>
    if separatesFields g then ([], consWord word words) else (g :: word, words)) ([], [])

theorem fields_eq (t : Text) : fields t = consWord (firstField t).1 (firstField t).2 := rfl

theorem fields_cons_separator {g : Glyph} (hg : separatesFields g = true) (t : Text) :
    fields (g :: t) = fields t := by
  simp only [fields_eq, firstField, List.foldr_cons, hg, if_true]
  rfl

theorem fields_separators_append (hu : ∀ g ∈ u, separatesFields g = true) (t : Text) :
    fields (u ++ t) = fields t := by
  induction u with
  | nil => rfl
  | cons g u ih =>
    rw [List.cons_append, fields_cons_separator (hu g (List.mem_cons_self ..)),
      ih fun g' hg' => hu g' (List.mem_cons_of_mem g hg')]

theorem firstField_append (hw : ∀ g ∈ w, separatesFields g = false) (t : Text) :
    firstField (w ++ t) = (w ++ (firstField t).1, (firstField t).2) := by
  induction w with
  | nil => rfl
  | cons g w ih =>
    have h := ih fun g' hg' => hw g' (List.mem_cons_of_mem g hg')
    rw [List.cons_append, firstField, List.foldr_cons]
    rw [firstField] at h
    rw [h]
    simp only [hw g (List.mem_cons_self ..), Bool.false_eq_true, if_false, List.cons_append]

theorem fields_word_append (hne : w ≠ []) (hw : ∀ g ∈ w, separatesFields g = false)
    (ht : ∀ g ∈ t.head?, separatesFields g = true) : fields (w ++ t) = w :: fields t := by
  have hfirst : (firstField t).1 = [] := by
    cases t with
    | nil => rfl
    | cons g t => simp only [firstField, List.foldr_cons, ht g rfl, if_true]
  rw [fields_eq, fields_eq t, firstField_append hw, hfirst, List.append_nil]
  cases w with
  | nil => exact absurd rfl hne
  | cons g w => rfl

/-! ### Labels -/

theorem trim_padded {p q : Text} (hp : ∀ g ∈ p, blankGlyph g = true)
    (hq : ∀ g ∈ q, blankGlyph g = true) (h : ∀ g ∈ t, blankGlyph g = false) :
    trim (p ++ t ++ q) = t := by
  have hdrop {t : Text} (h : ∀ g ∈ t, blankGlyph g = false) (u : Text) (hu : t = [] → u = []) :
      (t ++ u).dropWhile blankGlyph = t ++ u := by
    cases t with
    | nil => rw [hu rfl]; rfl
    | cons g t =>
      rw [List.cons_append, List.dropWhile_cons_of_neg]
      simp [h g (List.mem_cons_self ..)]
  by_cases ht : t = []
  · have hpq : (p ++ q).dropWhile blankGlyph = [] :=
      List.dropWhile_eq_nil_iff.2 (List.forall_mem_append.2 ⟨hp, hq⟩)
    rw [ht, List.append_nil, trim, hpq]
    rfl
  · have hback := hdrop (fun g hg => h g (List.mem_reverse.1 hg)) [] fun _ => rfl
    rw [List.append_nil] at hback
    rw [trim, List.append_assoc, List.dropWhile_append_of_pos hp, hdrop h q (absurd · ht),
      List.reverse_append, List.dropWhile_append_of_pos fun g hg => hq g (List.mem_reverse.1 hg),
      hback, List.reverse_reverse]

theorem trim_eq_self (h : ∀ g ∈ t, blankGlyph g = false) : trim t = t := by
  have := trim_padded (List.forall_mem_nil _) (List.forall_mem_nil _) h
  rwa [List.nil_append, List.append_nil] at this

theorem Line.read_eq {number : Int} {source : Text} {labels : List String} {statement : Text}
    (h : let parts := splitAtChar ':' (source.takeWhile (!·.is '#'))
      readLabels number parts.1 parts.2 = .ok (labels, statement)) :
    Line.read number source =
      .ok { number, labels, mnemonic := (fields statement).head?.map lowered,
            operands := (fields statement).tail } := by
  unfold Line.read
  simp only at h ⊢
  rw [h]
  cases hf : fields statement with
  | nil => simp only [bind, Except.bind, hf, List.head?_nil, List.tail_nil, Option.map_none]
  | cons name operands =>
    simp only [bind, Except.bind, hf, List.head?_cons, List.tail_cons, Option.map_some]

end RpnY86.Assembly
