import RpnY86.Proofs.Assembly.Identifiers

/-! # Lines as they are written

A `Written` line is put together from labels, fields, white space and a comment, each of which
carries what makes it one. Reading gives back the labels and the fields, whatever was chosen for the
rest (`Written.read_written`). -/

namespace RpnY86.Assembly

/-! ### Parts of a line -/

/-- White space, perhaps none. -/
def Padding : Type := { t : Text // ∀ g ∈ t, blankGlyph g = true }

/-- What stands between two fields: white space and commas, and at least one of them. -/
def Gap : Type := { t : Text // t ≠ [] ∧ ∀ g ∈ t, separatesFields g = true }

/-- A name or an operand: a word without white space, commas, colons and `#`. -/
def Field : Type :=
  { t : Text // t ≠ [] ∧ ∀ g ∈ t, separatesFields g = false ∧ g.is ':' = false ∧ g.is '#' = false }

/-- A label, with white space on both sides of its colon. -/
structure WrittenLabel where
  name : Identifier
  before : Padding
  after : Padding

/-- A name with operands behind it. -/
structure WrittenStatement where
  mnemonic : Field
  operands : List (Gap × Field)

/-- A line that somebody wrote. -/
structure Written where
  front : Padding
  labels : List WrittenLabel
  statement : Option WrittenStatement
  back : Padding
  comment : Option Text

/-- The text of a label. -/
def WrittenLabel.text (l : WrittenLabel) : Text :=
  l.name.text ++ l.before.val ++ .char ':' :: l.after.val

/-- The text of a statement. -/
def WrittenStatement.text (s : WrittenStatement) : Text :=
  s.mnemonic.val ++ s.operands.flatMap fun p => p.1.val ++ p.2.val

namespace Written

/-- The text of a line in front of its comment. -/
def code (w : Written) : Text :=
  w.front.val ++ w.labels.flatMap WrittenLabel.text ++
    (w.statement.elim [] WrittenStatement.text ++ w.back.val)

/-- The text of a line. -/
def text (w : Written) : Text := w.code ++ w.comment.elim [] (.char '#' :: ·)

/-- What a written line says: its labels, the name of its statement in lower case, its operands. -/
def line (w : Written) (number : Int) : Line where
  number := number
  labels := w.labels.map (·.name.name)
  mnemonic := w.statement.map fun s => String.ofList ((Text.chars s.mnemonic.val).map Text.toLower)
  operands := w.statement.elim [] fun s => s.operands.map (·.2.val)

end Written

/-! ### What the parts are free of -/

theorem Padding.separatesFields_of_mem (p : Padding) : ∀ g ∈ p.val, separatesFields g = true := by
  intro g hg
  rw [separatesFields, p.property g hg, Bool.true_or]

section free

variable {d : Char} (hd : separatesFields (.char d) = false)

include hd

theorem is_of_separatesFields {g : Glyph} (h : separatesFields g = true) : g.is d = false := by
  rw [Glyph.is, beq_eq_false_iff_ne]
  rintro rfl
  rw [h] at hd
  exact absurd hd.symm Bool.false_ne_true

theorem Padding.is_of_mem (p : Padding) : ∀ g ∈ p.val, g.is d = false := fun g hg =>
  is_of_separatesFields hd (p.separatesFields_of_mem g hg)

theorem Gap.is_of_mem (p : Gap) : ∀ g ∈ p.val, g.is d = false := fun g hg =>
  is_of_separatesFields hd (p.property.2 g hg)

end free

theorem WrittenStatement.is_of_mem_text (s : WrittenStatement) :
    ∀ g ∈ s.text, g.is ':' = false ∧ g.is '#' = false := by
  refine List.forall_mem_append.2 ⟨fun g hg => (s.mnemonic.property.2 g hg).2, fun g hg => ?_⟩
  obtain ⟨p, -, hg⟩ := List.mem_flatMap.1 hg
  rcases List.mem_append.1 hg with hg | hg
  · exact ⟨p.1.is_of_mem rfl g hg, p.1.is_of_mem rfl g hg⟩
  · exact (p.2.property.2 g hg).2

/-! ### Labels -/

/-- **Labels are read one by one**, and white space at most is left in front of the statement. -/
theorem readLabels_written (number : Int) {rest : Text} (hrest : ∀ g ∈ rest, g.is ':' = false)
    (labels : List WrittenLabel) (front : Padding) :
    ∃ p : Padding,
      let parts := splitAtChar ':' (front.val ++ labels.flatMap WrittenLabel.text ++ rest)
      readLabels number parts.1 parts.2 = .ok (labels.map (·.name.name), p.val ++ rest) := by
  induction labels generalizing front with
  | nil =>
    refine ⟨front, ?_⟩
    have hsplit : splitAtChar ':' (front.val ++ rest) = (front.val ++ rest, []) :=
      splitAtChar_eq_self (List.forall_mem_append.2 ⟨front.is_of_mem rfl, hrest⟩)
    simp only [List.flatMap_nil, List.append_nil, hsplit]
    rfl
  | cons l labels ih =>
    obtain ⟨p, hp⟩ := ih l.after
    refine ⟨p, ?_⟩
    have htext : front.val ++ (l :: labels).flatMap WrittenLabel.text ++ rest =
        (front.val ++ l.name.text ++ l.before.val) ++
          .char ':' :: (l.after.val ++ labels.flatMap WrittenLabel.text ++ rest) := by
      simp only [List.flatMap_cons, WrittenLabel.text, List.append_assoc, List.cons_append]
    have hcolon : ∀ g ∈ front.val ++ l.name.text ++ l.before.val, g.is ':' = false :=
      List.forall_mem_append.2 ⟨List.forall_mem_append.2
        ⟨front.is_of_mem rfl, l.name.is_of_mem_text rfl⟩, l.before.is_of_mem rfl⟩
    simp only at hp ⊢
    rw [htext, splitAtChar_append hcolon, l.name.readLabels_cons front.property l.before.property,
      hp]
    rfl

/-! ### Fields -/

theorem fields_operands (ps : List (Gap × Field)) (back : Padding) :
    fields ((ps.flatMap fun p => p.1.val ++ p.2.val) ++ back.val) = ps.map (·.2.val) ∧
      ∀ g ∈ ((ps.flatMap fun p => p.1.val ++ p.2.val) ++ back.val).head?,
        separatesFields g = true := by
  induction ps with
  | nil =>
    have hback := fields_separators_append back.separatesFields_of_mem []
    rw [List.append_nil] at hback
    exact ⟨hback, fun g hg => back.separatesFields_of_mem g (List.mem_of_mem_head? hg)⟩
  | cons p ps ih =>
    obtain ⟨⟨gap, hne, hgap⟩, ⟨word, hword, hplain⟩⟩ := p
    simp only [List.flatMap_cons, List.append_assoc, List.map_cons]
    refine ⟨?_, fun g hg => ?_⟩
    · rw [fields_separators_append hgap,
        fields_word_append hword (fun g hg => (hplain g hg).1) ih.2, ih.1]
    · rw [List.head?_append_of_ne_nil _ hne] at hg
      exact hgap g (List.mem_of_mem_head? hg)

/-- **The fields of a statement** are its name and its operands. -/
theorem fields_written (p : Padding) (statement : Option WrittenStatement) (back : Padding) :
    fields (p.val ++ (statement.elim [] WrittenStatement.text ++ back.val)) =
      statement.elim [] fun s => s.mnemonic.val :: s.operands.map (·.2.val) := by
  rw [fields_separators_append p.separatesFields_of_mem]
  cases statement with
  | none => exact (fields_operands [] back).1
  | some s =>
    obtain ⟨⟨word, hword, hplain⟩, operands⟩ := s
    obtain ⟨hoperands, hhead⟩ := fields_operands operands back
    simp only [Option.elim_some, WrittenStatement.text, List.append_assoc]
    rw [fields_word_append hword (fun g hg => (hplain g hg).1) hhead, hoperands]

/-! ### Lines -/

namespace Written

variable (w : Written)

theorem takeWhile_text : w.text.takeWhile (!·.is '#') = w.code := by
  have hcode : ∀ g ∈ w.code, (!g.is '#') = true := by
    suffices h : ∀ g ∈ w.code, g.is '#' = false from fun g hg => by rw [h g hg]; rfl
    refine List.forall_mem_append.2 ⟨List.forall_mem_append.2
      ⟨w.front.is_of_mem rfl, fun g hg => ?_⟩, List.forall_mem_append.2 ⟨?_, w.back.is_of_mem rfl⟩⟩
    · obtain ⟨l, -, hg⟩ := List.mem_flatMap.1 hg
      rcases List.mem_append.1 hg with hg | hg
      · rcases List.mem_append.1 hg with hg | hg
        · exact l.name.is_of_mem_text rfl g hg
        · exact l.before.is_of_mem rfl g hg
      · rcases List.mem_cons.1 hg with rfl | hg
        · rfl
        · exact l.after.is_of_mem rfl g hg
    · cases w.statement with
      | none => exact List.forall_mem_nil _
      | some s => exact fun g hg => (s.is_of_mem_text g hg).2
  rw [text, List.takeWhile_append_of_pos hcode]
  cases w.comment with
  | none => exact List.append_nil _
  | some t => exact List.append_nil _

/-- **A line is read as it was written.** -/
theorem read_written (number : Int) : Line.read number w.text = .ok (w.line number) := by
  have hrest : ∀ g ∈ w.statement.elim [] WrittenStatement.text ++ w.back.val,
      g.is ':' = false := by
    refine List.forall_mem_append.2 ⟨?_, w.back.is_of_mem rfl⟩
    cases w.statement with
    | none => exact List.forall_mem_nil _
    | some s => exact fun g hg => (s.is_of_mem_text g hg).1
  obtain ⟨p, hp⟩ := readLabels_written number hrest w.labels w.front
  change let parts := splitAtChar ':' w.code
    readLabels number parts.1 parts.2 = _ at hp
  rw [← w.takeWhile_text] at hp
  rw [Line.read_eq hp, fields_written, line]
  cases w.statement <;> rfl

/-- A line with two labels, a statement and a comment that looks like more of them. -/
example : ∃ w : Written, w.text = .ofString " a :\tb: MRMOVL\t4(%esp) ,, %eax # c: #" ∧
    w.line 1 = ⟨1, ["a", "b"], some "mrmovl", [.ofString "4(%esp)", .ofString "%eax"]⟩ :=
  let space : Padding := ⟨.ofString " ", by decide⟩
  let none : Padding := ⟨[], by decide⟩
  ⟨{ front := space
     labels := [⟨⟨"a", by decide⟩, space, ⟨.ofString "\t", by decide⟩⟩,
       ⟨⟨"b", by decide⟩, none, space⟩]
     statement := some ⟨⟨.ofString "MRMOVL", by decide⟩,
       [(⟨.ofString "\t", by decide⟩, ⟨.ofString "4(%esp)", by decide⟩),
        (⟨.ofString " ,, ", by decide⟩, ⟨.ofString "%eax", by decide⟩)]⟩
     back := space
     comment := some (.ofString " c: #") }, by decide, by decide⟩

end Written

end RpnY86.Assembly
