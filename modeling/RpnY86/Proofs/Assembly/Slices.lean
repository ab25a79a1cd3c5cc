import RpnY86.Assembly.Image
import RpnY86.Proofs.Assembly.Reading

/-! # Cutting by indices

What a line is taken apart into lies between indices of its text: up to its first `#`, up to its
first colon and behind it, up to the first parenthesis of an operand and from there to the last one.
`slice?` refuses indices that bound no part of a text. Read with it alone, every line and every
operand still has its reading, the same as before (`slicedRead?_eq`, `slicedPlace?_eq`): no text
leads to indices out of order or out of range. -/

namespace RpnY86.Assembly

open Y86 (Reg)

/-- The part of a text from index `i` up to index `j`; none where these bound no part. -/
def slice? (t : Text) (i j : Nat) : Option Text :=
  if i ≤ j ∧ j ≤ t.length then some ((t.take j).drop i) else none

theorem slice?_eq {t : Text} {i j : Nat} (hij : i ≤ j) (hj : j ≤ t.length) :
    slice? t i j = some ((t.take j).drop i) := if_pos ⟨hij, hj⟩

theorem length_of_slice? {t u : Text} {i j : Nat} (h : slice? t i j = some u) :
    u.length + i = j ∧ j ≤ t.length := by
  unfold slice? at h
  split at h
  · rename_i hb
    obtain rfl := Option.some.inj h
    rw [List.length_drop, List.length_take]
    omega
  · cases h

/-! ### The first place of a character -/

variable {c : Char} {t : Text} {i : Nat}

/-- The index of the first character `c` parts a text in two. -/
theorem exists_of_findIdx? (h : t.findIdx? (·.is c) = some i) :
    t = t.take i ++ .char c :: t.drop (i + 1) ∧ i < t.length ∧
      ∀ g ∈ t.take i, g.is c = false := by
  obtain ⟨hi, hc, hbefore⟩ := List.findIdx?_eq_some_iff_getElem.1 h
  have hglyph : t[i] = .char c := by simpa [Glyph.is] using hc
  refine ⟨?_, hi, ?_⟩
  · rw [← hglyph, List.getElem_cons_drop, List.take_append_drop]
  · intro g hg
    obtain ⟨j, hj, rfl⟩ := List.getElem_of_mem hg
    rw [List.length_take] at hj
    rw [List.getElem_take]
    simpa using hbefore j (by omega)

theorem takeWhile_of_findIdx? (h : t.findIdx? (·.is c) = some i) :
    t.takeWhile (!·.is c) = t.take i := by
  obtain ⟨ht, -, hbefore⟩ := exists_of_findIdx? h
  conv_lhs => rw [ht]
  rw [List.takeWhile_append_of_pos (by simpa using hbefore), List.takeWhile_cons_of_neg,
    List.append_nil]
  simp [Glyph.is]

theorem dropWhile_of_findIdx? (h : t.findIdx? (·.is c) = some i) :
    t.dropWhile (!·.is c) = .char c :: t.drop (i + 1) := by
  obtain ⟨ht, -, hbefore⟩ := exists_of_findIdx? h
  conv_lhs => rw [ht]
  rw [List.dropWhile_append_of_pos (by simpa using hbefore), List.dropWhile_cons_of_neg]
  simp [Glyph.is]

/-! ### Lines -/

/-- A line up to its comment. -/
def slicedCode? (t : Text) : Option Text :=
  match t.findIdx? (·.is '#') with
  | none => some t
  | some i => slice? t 0 i

theorem slicedCode?_eq (t : Text) : slicedCode? t = some (t.takeWhile (!·.is '#')) := by
  unfold slicedCode?
  split
  · rename_i h
    rw [List.takeWhile_eq_self_iff.2]
    simpa [List.findIdx?_eq_none_iff] using h
  · rename_i i h
    obtain ⟨-, hi, -⟩ := exists_of_findIdx? h
    rw [slice?_eq (Nat.zero_le i) (Nat.le_of_lt hi), takeWhile_of_findIdx? h, List.drop_zero]

/-- A label in front of what follows it. -/
def consLabel (name : Text) :
    Except Error (List String × Text) → Except Error (List String × Text) :=
  Except.map fun r => (Text.toString name :: r.1, r.2)

/-- The labels of a line and what follows them, found by the index of the first colon. -/
def slicedLabels? (number : Int) (t : Text) : Option (Except Error (List String × Text)) :=
  match t.findIdx? (·.is ':') with
  | none => some (.ok ([], t))
  | some i =>
    match slice? t 0 i with
    | none => none
    | some part =>
      let name := trim part
      if name.isEmpty then some (.error { line := number, problem := .missingLabel })
      else if name.any fun g => g.is ' ' || g.is '\t' then some (.ok ([], t))
      else if isIdentifier (Text.chars name) then
        match _h : slice? t (i + 1) t.length with
        | none => none
        | some rest => (slicedLabels? number rest).map (consLabel name)
      else some (.error { line := number, problem := .invalidLabel name })
termination_by t.length
decreasing_by
  have := length_of_slice? _h
  omega

theorem slicedLabels?_eq (number : Int) (t : Text) :
    slicedLabels? number t =
      some (readLabels number (splitAtChar ':' t).1 (splitAtChar ':' t).2) := by
  -- what follows a label is a shorter line
  induction hn : t.length using Nat.strong_induction_on generalizing t with
  | h n ih =>
    rw [slicedLabels?]
    split
    · rename_i h
      rw [splitAtChar_eq_self (by simpa [List.findIdx?_eq_none_iff] using h)]
      rfl
    · rename_i i h
      obtain ⟨ht, hi, hbefore⟩ := exists_of_findIdx? h
      have hsplit : splitAtChar ':' t = (t.take i, (splitAtChar ':' (t.drop (i + 1))).1 ::
          (splitAtChar ':' (t.drop (i + 1))).2) := by
        conv_lhs => rw [ht]
        exact splitAtChar_append hbefore _
      have hjoin := joinWithChar_splitAtChar ':' t
      have hrest : slice? t (i + 1) t.length = some (t.drop (i + 1)) := by
        rw [slice?_eq hi (Nat.le_refl _), List.take_length]
      have htail := ih _ (by rw [List.length_drop]; omega) (t.drop (i + 1)) rfl
      rw [hsplit] at hjoin ⊢
      rw [slice?_eq (Nat.zero_le i) (Nat.le_of_lt hi), List.drop_zero, readLabels, hrest]
      dsimp only at hjoin ⊢
      rw [htail, hjoin, Option.map_some]
      split_ifs
      · rfl
      · rfl
      · cases readLabels number (splitAtChar ':' (t.drop (i + 1))).1
          (splitAtChar ':' (t.drop (i + 1))).2 <;> rfl
      · rfl

/-- A line taken apart by indices. -/
def slicedRead? (number : Int) (source : Text) : Option (Except Error Line) :=
  (slicedCode? source).bind fun code => (slicedLabels? number code).map <| Except.map fun r =>
    { number, labels := r.1, mnemonic := (fields r.2).head?.map lowered,
      operands := (fields r.2).tail }

/-- **Lines.** Taking a line apart by indices never fails. -/
theorem slicedRead?_eq (number : Int) (source : Text) :
    slicedRead? number source = some (Line.read number source) := by
  rw [slicedRead?, slicedCode?_eq, Option.bind_some, slicedLabels?_eq, Option.map_some]
  cases h : readLabels number (splitAtChar ':' (source.takeWhile (!·.is '#'))).1
    (splitAtChar ':' (source.takeWhile (!·.is '#'))).2 with
  | error e =>
    rw [Line.read]
    simp only [h]
    rfl
  | ok r => rw [Line.read_eq h, Except.map]

/-! ### Places in memory -/

/-- A place in memory, its operand cut at the first opening parenthesis and at its end. -/
def Line.slicedPlace? (l : Line) (labels : LabelTable) (operand : Text) :
    Option (Except Error (UInt32 × Reg)) :=
  match operand.findIdx? (·.is '(') with
  | none => some (l.fail (.invalidMemory operand))
  | some i =>
    if operand.getLast? = some (.char ')') then
      (slice? operand (i + 1) (operand.length - 1)).bind fun base =>
        (slice? operand 0 i).map fun displacement => do
          let r ← l.register base
          let d ← if displacement.isEmpty then pure 0 else l.word labels displacement
          .ok (d, r)
    else some (l.fail (.invalidMemory operand))

/-- **Places.** Cutting an operand by indices never fails, wherever its parentheses are. -/
theorem Line.slicedPlace?_eq (l : Line) (labels : LabelTable) (operand : Text) :
    l.slicedPlace? labels operand = some (l.place labels operand) := by
  unfold slicedPlace? Line.place
  split
  · rename_i h
    rw [List.dropWhile_eq_nil_iff.2]
    simpa [List.findIdx?_eq_none_iff] using h
  · rename_i i h
    obtain ⟨ht, hi, -⟩ := exists_of_findIdx? h
    -- the parenthesis at the end is another one than the first opening one
    have hlast : operand.getLast? = some (.char ')') ↔
        (operand.drop (i + 1)).getLast? = some (.char ')') := by
      rw [List.getLast?_drop]
      split
      · rename_i hend
        have hopen : operand.getLast? = some (.char '(') := by
          rw [ht, List.drop_eq_nil_of_le hend, List.getLast?_concat]
        simp [hopen]
      · rfl
    rw [dropWhile_of_findIdx? h, takeWhile_of_findIdx? h]
    dsimp only
    by_cases hclose : operand.getLast? = some (.char ')')
    · have hbase : slice? operand (i + 1) (operand.length - 1) =
          some (operand.drop (i + 1)).dropLast := by
        have hne : operand.drop (i + 1) ≠ [] := by
          intro hnil
          rw [hlast, hnil] at hclose
          cases hclose
        have hlt : i + 1 < operand.length := by
          simpa [List.drop_eq_nil_iff] using hne
        rw [slice?_eq (by omega) (by omega), ← List.dropLast_eq_take,
          List.dropLast_drop_eq_drop_dropLast]
      rw [if_pos hclose, if_pos (hlast.1 hclose), hbase, Option.bind_some,
        slice?_eq (Nat.zero_le i) (Nat.le_of_lt hi), Option.map_some, List.drop_zero]
    · rw [if_neg hclose, if_neg (hlast.not.1 hclose)]

end RpnY86.Assembly
