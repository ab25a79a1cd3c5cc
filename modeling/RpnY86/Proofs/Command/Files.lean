import RpnY86.Proofs.Command.Worlds
import RpnY86.Proofs.Results

/-! # Files in a tree

Putting a file into a tree changes this file only (`content?_put`). Output that is delivered leaves
the tree as it was, or puts one file into it, at the place of its path; without force, there was no
file at that place (`deliver_cases`). What is saved to a new file is read from it
(`Vacant.exists_save`). -/

namespace RpnY86.Command.FileTree

variable {t t' : FileTree} {path bs : Bytes} {p q : Place}

theorem lookup_filter {files : List (Place × Bytes)} (h : q ≠ p) :
    (files.filter (·.1 != p)).lookup q = files.lookup q := by
  induction files with
  | nil => rfl
  | cons file files ih =>
    obtain ⟨r, content⟩ := file
    by_cases hr : r = p
    · have hq : (q == r) = false := beq_false_of_ne (hr ▸ h)
      rw [List.filter_cons_of_neg (by simp [hr]), List.lookup_cons, hq, ih]
    · rw [List.filter_cons_of_pos (by simpa using hr), List.lookup_cons, List.lookup_cons, ih]

theorem content?_put (t : FileTree) (p q : Place) (bs : Bytes) :
    (t.put p bs).content? q = if q = p then some bs else t.content? q := by
  unfold put content?
  rw [List.lookup_cons]
  by_cases h : q = p
  · rw [if_pos h, beq_iff_eq.2 h]
  · rw [if_neg h, beq_false_of_ne h, lookup_filter h]

/-- The place at the end of a path. -/
def place? (t : FileTree) (path : Bytes) : Option Place :=
  match t.target path with
  | .ok (.entry dir name _) => some (dir.child name)
  | _ => none

theorem content?_of_entry? (h : t.entry? p = none) : t.content? p = none := by
  unfold entry? at h
  split_ifs at h
  exact Option.map_eq_none_iff.1 h

/-- **A file is replaced at the place of its path.** -/
theorem replace_eq_ok (h : t.replace path bs = .ok t') :
    ∃ dir name, t.target path = .ok (.entry dir name false) ∧ name.length ≤ maxNameSize ∧
      (t' = t ∧ t.entry? (dir.child name) = some .sink ∨ t' = t.put (dir.child name) bs) := by
  unfold replace at h
  obtain ⟨target, htarget, h⟩ := bind_eq_ok.1 h
  rcases target with _ | ⟨dir, name, slashed⟩
  · cases h
  · dsimp only at h
    cases slashed with
    | true =>
      rw [if_pos rfl] at h
      cases h
    | false =>
      rw [if_neg Bool.false_ne_true] at h
      split_ifs at h with hsize
      refine ⟨dir, name, htarget, Nat.le_of_not_lt hsize, ?_⟩
      rcases he : t.entry? (dir.child name) with _ | ⟨_ | content | _⟩
      · rw [he] at h
        exact .inr (Except.ok.inj h).symm
      · rw [he] at h
        cases h
      · rw [he] at h
        exact .inr (Except.ok.inj h).symm
      · rw [he] at h
        exact .inl ⟨(Except.ok.inj h).symm, rfl⟩

theorem locate_eq {dir : Place} {name : Bytes} (h : t.target path = .ok (.entry dir name false))
    (hsize : name.length ≤ maxNameSize) {e : Option Entry}
    (he : t.entry? (dir.child name) = e) : t.locate path = e.elim (.error .notFound) .ok := by
  unfold locate
  rw [h]
  change (if maxNameSize < name.length then _ else _ : Except FileProblem Entry) = _
  rw [if_neg (Nat.not_lt.2 hsize), he]
  rcases e with _ | ⟨_ | content | _⟩
  · rfl
  · rfl
  · rfl
  · rfl

theorem checkFree_eq_ok : t.checkFree path = .ok () ↔ t.locate path = .error .notFound := by
  unfold checkFree examine
  cases t.locate path with
  | ok e => simp
  | error problem => simp

theorem writeFile_eq_ok : t.writeFile path bs = .ok t' ↔ t.replace path bs = .ok t' := by
  unfold writeFile
  cases t.replace path bs with
  | ok t'' => simp
  | error problem => simp

/-- A file is saved where there is nothing, or where something is to be replaced. -/
theorem save_eq_ok {force : Bool} :
    t.save force path bs = .ok t' ↔
      (force = true ∨ t.locate path = .error .notFound) ∧ t.replace path bs = .ok t' := by
  rw [← writeFile_eq_ok, ← checkFree_eq_ok]
  have hwrite := mapError_eq_ok (x := t.writeFile path bs) (f := Failure.unwritable path) (a := t')
  cases force with
  | true => exact hwrite.trans (by simp)
  | false =>
    rcases hfree : t.checkFree path with f | ⟨⟩
    · constructor
      · intro h
        obtain ⟨u, hu, -⟩ := bind_eq_ok.1 (h : t.checkFree path >>= _ = _)
        rw [hfree] at hu
        cases hu
      · rintro ⟨h | h, -⟩
        · cases h
        · cases h
    · refine Iff.trans ?_ (hwrite.trans (by simp))
      unfold save
      rw [hfree]
      exact Iff.rfl

/-- **Output that is delivered** leaves the tree as it was, or puts one file into it. -/
theorem deliver_cases {force : Bool} (h : t.deliver force path bs = .ok t') :
    t' = t ∨ ∃ p, t.place? path = some p ∧ t' = t.put p bs ∧
      (force = true ∨ t.content? p = none) := by
  unfold deliver at h
  split_ifs at h with hpath
  · exact .inl (Except.ok.inj h).symm
  · obtain ⟨hfree, h⟩ := save_eq_ok.1 h
    obtain ⟨dir, name, htarget, hsize, ⟨rfl, -⟩ | rfl⟩ := replace_eq_ok h
    · exact .inl rfl
    · refine .inr ⟨dir.child name, ?_, rfl, hfree.imp id fun hfree => ?_⟩
      · rw [place?, htarget]
      · refine content?_of_entry? ?_
        cases he : t.entry? (dir.child name) with
        | none => rfl
        | some e =>
          rw [locate_eq htarget hsize he] at hfree
          cases hfree

/-! ### New files -/

/-- The path leads to a name in a directory that exists, and there is nothing of that name. -/
def Vacant (t : FileTree) (path : Bytes) : Prop :=
  ∃ dir name, t.target path = .ok (.entry dir name false) ∧ name.length ≤ maxNameSize ∧
    t.entry? (dir.child name) = none

theorem isDirectory_put (h : t.isDirectory q = true) : (t.put p bs).isDirectory q = true := by
  simp only [isDirectory, Bool.or_eq_true, List.any_eq_true] at h ⊢
  refine h.imp id fun ⟨⟨r, content⟩, hr, hbelow⟩ => ?_
  by_cases hrp : r = p
  · exact ⟨(p, bs), List.mem_cons_self .., hrp ▸ hbelow⟩
  · refine ⟨(r, content), List.mem_cons_of_mem _ (List.mem_filter.2 ⟨hr, ?_⟩), hbelow⟩
    simpa using hrp

/-- A file makes no directory of its own place. -/
theorem isDirectory_of_put (h : (t.put p bs).isDirectory p = true) : t.isDirectory p = true := by
  simp only [isDirectory, Bool.or_eq_true, List.any_eq_true] at h ⊢
  refine h.imp id fun ⟨file, hfile, hbelow⟩ => ?_
  rcases List.mem_cons.1 hfile with rfl | hfile
  · simp [Place.isBelow] at hbelow
  · exact ⟨file, (List.mem_filter.1 hfile).1, hbelow⟩

theorem entry?_eq_directory : t.entry? p = some .directory ↔ t.isDirectory p = true := by
  unfold entry?
  split_ifs with hdir hnull
  · simp [hdir]
  · simp [hdir]
  · simp [hdir]

/-- A path leads where it led before. -/
theorem walk_put {dir : Place} {names : List Bytes} {target : Target}
    (h : t.walk dir names = .ok target) : (t.put p bs).walk dir names = .ok target := by
  induction names generalizing dir with
  | nil => exact h
  | cons name names ih =>
    unfold walk at h ⊢
    split_ifs at h ⊢
    · exact ih h
    · exact h
    · rcases he : t.entry? (dir.child name) with _ | ⟨_ | content | _⟩
      · rw [he] at h
        cases h
      · rw [he] at h
        rw [entry?_eq_directory.2 (isDirectory_put (entry?_eq_directory.1 he))]
        exact ih h
      · rw [he] at h
        cases h
      · rw [he] at h
        cases h

theorem target_put {target : Target} (h : t.target path = .ok target) :
    (t.put p bs).target path = .ok target := by
  unfold FileTree.target at h ⊢
  split_ifs at h ⊢
  · exact walk_put h
  · exact walk_put h

theorem entry?_put_self (h : t.entry? p = none) :
    FileTree.entry? (t.put p bs) p = some (.file bs) := by
  unfold entry? at h
  split_ifs at h with hdir hnull
  unfold entry?
  rw [if_neg fun hput => hdir (isDirectory_of_put hput), if_neg hnull, content?_put, if_pos rfl]
  rfl

/-- **What is saved to a new file is read from it.** -/
theorem Vacant.exists_save (h : t.Vacant path) (force : Bool) (bs : Bytes) :
    ∃ t', t.save force path bs = .ok t' ∧ t'.readFile path = .ok bs := by
  obtain ⟨dir, name, htarget, hsize, hnone⟩ := h
  refine ⟨t.put (dir.child name) bs, save_eq_ok.2 ⟨.inr ?_, ?_⟩, ?_⟩
  · exact locate_eq htarget hsize hnone
  · unfold replace
    rw [htarget]
    change (if maxNameSize < name.length then _ else _ : Except FileProblem FileTree) = _
    rw [if_neg (Nat.not_lt.2 hsize), hnone]
  · unfold readFile
    rw [locate_eq (target_put htarget) hsize (entry?_put_self hnone)]
    rfl

end RpnY86.Command.FileTree
