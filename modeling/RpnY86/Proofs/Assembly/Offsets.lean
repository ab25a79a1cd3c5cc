import RpnY86.Proofs.Assembly.Meaning

/-! # Both passes agree on offsets

A line adds bytes to an image, and how many depends on its directive or mnemonic alone
(`Line.Adds`). An image consists of what its lines add, one part behind the other (`Laid`): the
address that the first pass has given to a label is the length of the parts before its line, and
the source map has an entry for each part that is an instruction or a word of data.

The invariant that carries the proof is that both passes go over a line from one offset to the same
next offset (`Gains`). An alignment that leaves the range of a word is the one case where the
address is not the offset; it then lies below the image's length, so that the second pass stops. -/

namespace RpnY86.Assembly

open Y86 (Instruction wordBytes)

/-- The bytes that a line adds to an image of length `a`. -/
inductive Line.Adds (labels : LabelTable) (l : Line) (a : Nat) : List UInt8 → Prop
  | nothing (h : l.mnemonic = none) : Adds labels l a []
  | instruction {m : Mnemonic} {i : Instruction UInt32} (h : l.keyword? = some (.instruction m))
    (hi : l.instruction labels m = .ok i) (hlength : i.encode.length = m.length) :
    Adds labels l a i.encode
  | long {operand : Text} {v : UInt32} (h : l.keyword? = some (.directive .long))
    (ho : l.operands = [operand]) (hv : l.word labels operand = .ok v)
    (hlength : (wordBytes v).length = 4) : Adds labels l a (wordBytes v)
  | pos {n : UInt32} {k : Nat} (h : l.keyword? = some (.directive .pos))
    (hn : l.directiveNumber .pos = .ok n) (hk : a + k = n.toNat) :
    Adds labels l a (List.replicate k 0)
  | align {n : UInt32} {k : Nat} (h : l.keyword? = some (.directive .align))
    (hn : l.directiveNumber .align = .ok n) (hpos : 0 < n.toNat)
    (hk : IsLeast {b | n.toNat ∣ b ∧ a ≤ b} (a + k)) : Adds labels l a (List.replicate k 0)

/-- Whether a line has an entry in the source map. -/
def Line.hasEntry (l : Line) : Bool :=
  match l.keyword? with
  | some (.instruction _) | some (.directive .long) => true
  | _ => false

/-- The length of the first `i` parts. -/
def offset (parts : List (List UInt8)) (i : Nat) : Nat := (parts.take i).flatten.length

/-- An image laid out in parts, one for each line of a program text. -/
structure Laid (source : Text) (labels : LabelTable) (image : Image) (ls : List Line)
    (parts : List (List UInt8)) : Prop where
  lines : readLines source = .ok ls
  length_parts : parts.length = ls.length
  bytes : image.bytes = parts.flatten
  /-- The second pass comes to line `i` with the parts before it. -/
  reached : ∀ i ≤ ls.length, ∃ e, (ls.take i).foldlM (Emission.addLine labels) ⟨0, #[]⟩ = .ok e ∧
    e.length = offset parts i ∧ e.image.bytes = (parts.take i).flatten
  adds : ∀ i (l : Line) bs, ls[i]? = some l → parts[i]? = some bs →
    l.Adds labels (offset parts i) bs
  labels_iff : ∀ name a, labels.address? name = some a ↔
    ∃ i l, ls[i]? = some l ∧ name ∈ l.labels ∧ a.toNat = offset parts i
  sourceMap_iff : ∀ a n, (a, n) ∈ image.sourceMap ↔
    ∃ i l, ls[i]? = some l ∧ l.hasEntry = true ∧ a.toNat = offset parts i ∧ n = i + 1
  increasing : image.sourceMap.Pairwise fun p q => p.1 < q.1 ∧ p.2 < q.2

variable {labels t u : LabelTable} {e e' : Emission} {l : Line} {ls : List Line}
  {bs : List UInt8} {parts : List (List UInt8)}

/-! ### One line -/

/-- The entry of a line at offset `a` in the source map. -/
def Line.entries (l : Line) (a : Nat) : List (UInt32 × Int) :=
  if l.hasEntry then [(a.toUInt32, l.number)] else []

/-- Both passes go over a line, and the second one adds `bs`. -/
structure Gains (labels : LabelTable) (e : Emission) (l : Line) (bs : List UInt8) (e' : Emission) :
    Prop where
  adds : l.Adds labels e.length bs
  addressAfter : l.addressAfter e.length.toUInt32 = .ok (e.length + bs.length).toUInt32
  length : e'.length = e.length + bs.length
  bytes : e'.image.bytes = e.image.bytes ++ bs
  sourceMap : e'.image.sourceMap = e.image.sourceMap ++ l.entries e.length

theorem bytes_add (e : Emission) (line : Option Int) (bs : List UInt8) :
    (e.add line bs).image.bytes = e.image.bytes ++ bs := by
  simp only [Emission.image, Emission.add, Array.toList_push, List.flatMap_append,
    List.flatMap_singleton]

theorem sourceMap_add (e : Emission) (line : Option Int) (bs : List UInt8) :
    (e.add line bs).image.sourceMap =
      e.image.sourceMap ++ (line.map (e.length.toUInt32, ·)).toList := by
  simp only [Emission.image, Emission.add, Array.toList_push, List.filterMap_append]
  cases line <;> rfl

theorem exists_append_of_addLine (h : e.addLine labels l = .ok e') :
    ∃ bs, e'.length = e.length + bs.length ∧ e'.image.bytes = e.image.bytes ++ bs := by
  rcases addLine_cases h with ⟨-, rfl⟩ | ⟨_, _, -, -, rfl⟩ | ⟨_, _, -, -, -, rfl⟩ |
    ⟨_, _, -, -, -, -, rfl⟩
  · exact ⟨[], rfl, (List.append_nil _).symm⟩
  all_goals exact ⟨_, rfl, bytes_add ..⟩

theorem isLeast_alignUp {a n : Nat} (hn : 0 < n) :
    IsLeast {b | n ∣ b ∧ a ≤ b} ((a + n - 1) / n * n) := by
  have hdiv := Nat.div_add_mod (a + n - 1) n
  have hmod := Nat.mod_lt (a + n - 1) hn
  rw [Nat.mul_comm] at hdiv
  refine ⟨⟨Nat.dvd_mul_left .., by omega⟩, ?_⟩
  rintro _ ⟨⟨q, rfl⟩, hq⟩
  rw [Nat.mul_comm n q]
  refine Nat.mul_le_mul_right n (Nat.le_of_lt_succ ?_)
  rw [Nat.div_lt_iff_lt_mul hn, Nat.succ_mul, Nat.mul_comm q n]
  omega

theorem toNat_alignUp {a n : UInt32} (hn : n ≠ 0) :
    (alignUp a n).toNat = (a.toNat + n.toNat - 1) % 2 ^ 32 / n.toNat * n.toNat := by
  have hpos : 0 < n.toNat := Nat.pos_of_ne_zero fun h => hn (UInt32.toNat_inj.1 h)
  have hsum : (a + n - 1).toNat = (a.toNat + n.toNat - 1) % 2 ^ 32 := by
    have ha := a.toNat_lt
    have hn := n.toNat_lt
    simp only [UInt32.toNat_sub, UInt32.toNat_add, UInt32.reduceToNat]
    omega
  have hle := Nat.div_mul_le_self ((a.toNat + n.toNat - 1) % 2 ^ 32) n.toNat
  rw [alignUp, UInt32.toNat_mul, UInt32.toNat_div, hsum]
  omega

/-- An aligned address that does not lie below `a` is the next multiple. -/
theorem isLeast_of_alignUp {a : Nat} {n : UInt32} (ha : a < 2 ^ 32) (hn : n ≠ 0)
    (h : a ≤ (alignUp a.toUInt32 n).toNat) :
    IsLeast {b | n.toNat ∣ b ∧ a ≤ b} (alignUp a.toUInt32 n).toNat := by
  have hpos : 0 < n.toNat := Nat.pos_of_ne_zero fun h => hn (UInt32.toNat_inj.1 h)
  have hlt := n.toNat_lt
  have ha' : a.toUInt32.toNat = a := Nat.mod_eq_of_lt ha
  rw [toNat_alignUp hn, ha'] at h ⊢
  -- a sum that wraps around is less than `a`, and so is every multiple below it
  have hfits : (a + n.toNat - 1) % 2 ^ 32 = a + n.toNat - 1 := by
    have hle := Nat.div_mul_le_self ((a + n.toNat - 1) % 2 ^ 32) n.toNat
    omega
  rw [hfits]
  exact isLeast_alignUp hpos

/-- **One line.** Both passes go over it from the same offset to the same offset. -/
theorem exists_gains (h : e.addLine labels l = .ok e') (ha : e.length < 2 ^ 32) :
    ∃ bs, Gains labels e l bs e' := by
  rcases addLine_cases h with ⟨hnone, rfl⟩ | ⟨m, i, hk, hi, rfl⟩ | ⟨operand, v, hk, ho, hv, rfl⟩ |
    ⟨d, next, hd, hk, hnext, hle, rfl⟩
  · refine ⟨[], .nothing hnone, ?_, rfl, (List.append_nil _).symm, ?_⟩
    · rw [Line.addressAfter, hnone]
      rfl
    · rw [Line.entries, Line.hasEntry, Line.keyword?, hnone]
      exact (List.append_nil _).symm
  · obtain ⟨ops, -, hdenotes⟩ := denotes_of_instruction hi
    have hlength : i.encode.length = m.length := by
      rw [i.length_encode, ← i.length_mnemonic, hdenotes.mnemonic_eq]
    refine ⟨_, .instruction hk hi hlength, ?_, rfl, bytes_add .., ?_⟩
    · obtain ⟨name, hname, hkeyword⟩ := Option.bind_eq_some_iff.1 hk
      simp only [Line.addressAfter, hname, hkeyword, hlength]
      exact congrArg _ (UInt32.ofNat_add ..).symm
    · rw [sourceMap_add, Line.entries, Line.hasEntry, hk]
      rfl
  · refine ⟨_, .long hk ho hv rfl, ?_, rfl, bytes_add .., ?_⟩
    · obtain ⟨name, hname, hkeyword⟩ := Option.bind_eq_some_iff.1 hk
      simp only [Line.addressAfter, hname, hkeyword, ho]
      exact congrArg _ (UInt32.ofNat_add e.length 4).symm
    · rw [sourceMap_add, Line.entries, Line.hasEntry, hk]
      rfl
  · have hend : e.length + (next.toNat - e.length) = next.toNat := by omega
    have hentries : l.entries e.length = [] := by
      rw [Line.entries, Line.hasEntry, hk]
      rcases hd with rfl | rfl <;> rfl
    have hadds : l.Adds labels e.length (List.replicate (next.toNat - e.length) 0) := by
      obtain ⟨name, hname, hkeyword⟩ := Option.bind_eq_some_iff.1 hk
      rcases hd with rfl | rfl
      · simp only [Line.addressAfter, hname, hkeyword, bind_eq_ok] at hnext
        obtain ⟨n, hn, hnext⟩ := hnext
        split at hnext
        · cases hnext
        · obtain rfl := Except.ok.inj hnext
          exact .pos hk hn hend
      · simp only [Line.addressAfter, hname, hkeyword, bind_eq_ok] at hnext
        obtain ⟨n, hn, hnext⟩ := hnext
        split at hnext
        · cases hnext
        · rename_i hzero
          obtain rfl := Except.ok.inj hnext
          have hpos : 0 < n.toNat := Nat.pos_of_ne_zero fun h => hzero (UInt32.toNat_inj.1 h)
          refine .align hk hn hpos ?_
          rw [hend]
          exact isLeast_of_alignUp ha hzero hle
    refine ⟨_, hadds, ?_, rfl, bytes_add .., ?_⟩
    · rw [hnext, List.length_replicate, hend]
      exact congrArg _ UInt32.ofNat_toNat.symm
    · rw [sourceMap_add, hentries]
      rfl

/-! ### All lines -/

/-- The second pass goes over lines, and each of them adds its part. -/
inductive Lays (labels : LabelTable) : Emission → List Line → List (List UInt8) → Emission → Prop
  | nil (e : Emission) : Lays labels e [] [] e
  | cons {e e₁ e' : Emission} {l : Line} {ls : List Line} {bs : List UInt8}
    {parts : List (List UInt8)} (h : e.addLine labels l = .ok e₁) (hl : Gains labels e l bs e₁)
    (hrest : Lays labels e₁ ls parts e') : Lays labels e (l :: ls) (bs :: parts) e'

theorem exists_append_of_foldlM (h : ls.foldlM (Emission.addLine labels) e = .ok e') :
    ∃ bs, e'.length = e.length + bs.length ∧ e'.image.bytes = e.image.bytes ++ bs := by
  induction ls generalizing e with
  | nil =>
    obtain rfl := Except.ok.inj h
    exact ⟨[], rfl, (List.append_nil _).symm⟩
  | cons l ls ih =>
    rw [List.foldlM_cons] at h
    obtain ⟨e₁, h₁, hrest⟩ := bind_eq_ok.1 h
    obtain ⟨bs, hlength, hbytes⟩ := exists_append_of_addLine h₁
    obtain ⟨bs', hlength', hbytes'⟩ := ih hrest
    refine ⟨bs ++ bs', ?_, ?_⟩
    · rw [hlength', hlength, List.length_append, Nat.add_assoc]
    · rw [hbytes', hbytes, List.append_assoc]

theorem exists_lays (h : ls.foldlM (Emission.addLine labels) e = .ok e')
    (ha : e'.length < 2 ^ 32) : ∃ parts, Lays labels e ls parts e' := by
  induction ls generalizing e with
  | nil =>
    obtain rfl := Except.ok.inj h
    exact ⟨[], .nil _⟩
  | cons l ls ih =>
    rw [List.foldlM_cons] at h
    obtain ⟨e₁, h₁, hrest⟩ := bind_eq_ok.1 h
    obtain ⟨_, hlength, -⟩ := exists_append_of_addLine h₁
    obtain ⟨_, hlength', -⟩ := exists_append_of_foldlM hrest
    obtain ⟨bs, hbs⟩ := exists_gains h₁ (by omega)
    obtain ⟨parts, hparts⟩ := ih hrest
    exact ⟨bs :: parts, .cons h₁ hbs hparts⟩

@[simp] theorem offset_zero (parts : List (List UInt8)) : offset parts 0 = 0 := rfl

@[simp] theorem offset_cons_succ (bs : List UInt8) (parts : List (List UInt8)) (i : Nat) :
    offset (bs :: parts) (i + 1) = bs.length + offset parts i := by
  simp [offset]

theorem offset_le (parts : List (List UInt8)) (i : Nat) :
    offset parts i ≤ parts.flatten.length := by
  induction parts generalizing i with
  | nil => simp [offset]
  | cons bs parts ih =>
    cases i with
    | zero => exact Nat.zero_le _
    | succ i =>
      have := ih i
      rw [offset_cons_succ, List.flatten_cons, List.length_append]
      omega

theorem exists_getElem?_cons {P : Nat → Line → Prop} :
    (∃ i k, (l :: ls)[i]? = some k ∧ P i k) ↔ P 0 l ∨ ∃ i k, ls[i]? = some k ∧ P (i + 1) k := by
  constructor
  · rintro ⟨i, k, hk, h⟩
    cases i with
    | zero =>
      obtain rfl := Option.some.inj hk
      exact .inl h
    | succ i => exact .inr ⟨i, k, hk, h⟩
  · rintro (h | ⟨i, k, hk, h⟩)
    · exact ⟨0, l, rfl, h⟩
    · exact ⟨i + 1, k, hk, h⟩

namespace Lays

theorem length_parts (h : Lays labels e ls parts e') : parts.length = ls.length := by
  induction h with
  | nil => rfl
  | cons _ _ _ ih => rw [List.length_cons, List.length_cons, ih]

theorem length_eq (h : Lays labels e ls parts e') :
    e'.length = e.length + parts.flatten.length := by
  induction h with
  | nil => rfl
  | cons _ hl _ ih => rw [ih, hl.length, List.flatten_cons, List.length_append, Nat.add_assoc]

theorem bytes_eq (h : Lays labels e ls parts e') :
    e'.image.bytes = e.image.bytes ++ parts.flatten := by
  induction h with
  | nil => exact (List.append_nil _).symm
  | cons _ hl _ ih => rw [ih, hl.bytes, List.flatten_cons, List.append_assoc]

theorem foldlM_eq (h : Lays labels e ls parts e') :
    ls.foldlM (Emission.addLine labels) e = .ok e' := by
  induction h with
  | nil => rfl
  | cons h₁ _ _ ih =>
    rw [List.foldlM_cons, h₁]
    exact ih

theorem exists_take (h : Lays labels e ls parts e') (i : Nat) :
    ∃ e₁, Lays labels e (ls.take i) (parts.take i) e₁ := by
  induction h generalizing i with
  | nil e =>
    rw [List.take_nil, List.take_nil]
    exact ⟨e, .nil e⟩
  | cons h₁ hl _ ih =>
    cases i with
    | zero => exact ⟨_, .nil _⟩
    | succ i =>
      obtain ⟨e₂, h₂⟩ := ih i
      exact ⟨e₂, .cons h₁ hl h₂⟩

theorem adds (h : Lays labels e ls parts e') {i : Nat} {l : Line} {bs : List UInt8}
    (hl : ls[i]? = some l) (hbs : parts[i]? = some bs) :
    l.Adds labels (e.length + offset parts i) bs := by
  induction h generalizing i with
  | nil => exact nomatch hl
  | cons _ hgains _ ih =>
    cases i with
    | zero =>
      obtain rfl := Option.some.inj hl
      obtain rfl := Option.some.inj hbs
      exact hgains.adds
    | succ i =>
      rw [offset_cons_succ, ← Nat.add_assoc, ← hgains.length]
      exact ih hl hbs

end Lays

/-! ### Labels -/

theorem address?_define {a : UInt32} {names : List String} (h : t.define a names = (u, none))
    (name : String) (b : UInt32) :
    u.address? name = some b ↔ t.address? name = some b ∨ name ∈ names ∧ b = a := by
  induction names generalizing t with
  | nil =>
    obtain rfl : t = u := congrArg Prod.fst h
    simp
  | cons n names ih =>
    rw [LabelTable.define] at h
    split at h
    · exact nomatch congrArg Prod.snd h
    · rename_i hfresh
      have hnone : t.address? n = none := by
        rw [← Option.not_isSome_iff_eq_none]
        exact hfresh
      rw [ih h, List.mem_cons]
      by_cases hname : name = n
      · subst hname
        have hhead : LabelTable.address? ((name, a) :: t) name = some a := List.lookup_cons_self
        rw [hhead, hnone, Option.some.injEq]
        constructor
        · rintro (rfl | ⟨-, rfl⟩) <;> exact .inr ⟨.inl rfl, rfl⟩
        · rintro (h | ⟨-, rfl⟩)
          · exact nomatch h
          · exact .inl rfl
      · have htail : LabelTable.address? ((n, a) :: t) name = t.address? name := by
          rw [LabelTable.address?, List.lookup_cons, beq_false_of_ne hname]
          rfl
        rw [htail, or_iff_right hname]

theorem address?_of_locate {a : UInt32} (h : locate a t ls = (u, none)) {name : String}
    {b : UInt32} (hname : t.address? name = some b) : u.address? name = some b := by
  induction ls generalizing a t with
  | nil =>
    obtain rfl : t = u := congrArg Prod.fst h
    exact hname
  | cons l ls ih =>
    rw [locate] at h
    split at h
    · cases h
    · rename_i t' hdefine
      have hname' := (address?_define hdefine name b).mpr (.inl hname)
      split at h
      · exact ih h hname'
      · cases h

/-- The first pass gives each label the offset of its line. -/
theorem Lays.address?_iff (h : Lays labels e ls parts e')
    (hl : locate e.length.toUInt32 t ls = (u, none)) (name : String) (b : UInt32) :
    u.address? name = some b ↔ t.address? name = some b ∨
      ∃ i l, ls[i]? = some l ∧ name ∈ l.labels ∧ b = (e.length + offset parts i).toUInt32 := by
  induction h generalizing t with
  | nil =>
    obtain rfl : t = u := congrArg Prod.fst hl
    simp
  | @cons e e₁ e' l ls bs parts h₁ hgains _ ih =>
    rw [locate] at hl
    split at hl
    · exact nomatch congrArg Prod.snd hl
    · rename_i t₁ hdefine
      rw [hgains.addressAfter, ← hgains.length] at hl
      rw [ih hl, address?_define hdefine, or_assoc, hgains.length]
      rw [exists_getElem?_cons]
      simp only [offset_zero, offset_cons_succ, Nat.add_zero, Nat.add_assoc]

/-! ### The source map -/

/-- The entries of lines that add parts from offset `a` on. -/
def entriesFrom : (a : Nat) → List Line → List (List UInt8) → List (UInt32 × Int)
  | a, l :: ls, bs :: parts => l.entries a ++ entriesFrom (a + bs.length) ls parts
  | _, _, _ => []

theorem Lays.sourceMap_eq (h : Lays labels e ls parts e') :
    e'.image.sourceMap = e.image.sourceMap ++ entriesFrom e.length ls parts := by
  induction h with
  | nil => exact (List.append_nil _).symm
  | cons _ hl _ ih => rw [ih, hl.sourceMap, hl.length, entriesFrom, List.append_assoc]

theorem mem_entries {a : Nat} {p : UInt32 × Int} :
    p ∈ l.entries a ↔ l.hasEntry = true ∧ p = (a.toUInt32, l.number) := by
  unfold Line.entries
  split <;> simp_all

theorem Lays.mem_entriesFrom (h : Lays labels e ls parts e') (p : UInt32 × Int) :
    p ∈ entriesFrom e.length ls parts ↔ ∃ i l, ls[i]? = some l ∧ l.hasEntry = true ∧
      p = ((e.length + offset parts i).toUInt32, l.number) := by
  induction h with
  | nil => simp [entriesFrom]
  | @cons e e₁ e' l ls bs parts h₁ hgains _ ih =>
    rw [entriesFrom, List.mem_append, mem_entries, ← hgains.length, ih, hgains.length,
      exists_getElem?_cons]
    simp only [offset_zero, offset_cons_succ, Nat.add_zero, Nat.add_assoc]

theorem Line.Adds.length_pos {a : Nat} (h : l.Adds labels a bs) (hentry : l.hasEntry = true) :
    0 < bs.length := by
  rw [Line.hasEntry] at hentry
  cases h with
  | nothing h =>
    rw [Line.keyword?, h] at hentry
    cases hentry
  | @instruction m i h hi hlength =>
    rw [hlength]
    cases m <;> exact Nat.succ_pos _
  | long h ho hv hlength =>
    rw [hlength]
    decide
  | pos h =>
    rw [h] at hentry
    cases hentry
  | align h =>
    rw [h] at hentry
    cases hentry

theorem Lays.pairwise_entriesFrom (h : Lays labels e ls parts e') (hlt : e'.length < 2 ^ 32)
    (hls : ls.Pairwise fun k l => k.number < l.number) :
    (entriesFrom e.length ls parts).Pairwise fun p q => p.1 < q.1 ∧ p.2 < q.2 := by
  induction h with
  | nil => exact .nil
  | @cons e e₁ e' l ls bs parts h₁ hgains hrest ih =>
    obtain ⟨hfirst, hothers⟩ := List.pairwise_cons.1 hls
    have htail := ih hlt hothers
    rw [entriesFrom, ← hgains.length, List.pairwise_append]
    refine ⟨?_, htail, ?_⟩
    · unfold Line.entries
      split
      · exact List.pairwise_singleton _ _
      · exact .nil
    · intro p hp q hq
      obtain ⟨hentry, rfl⟩ := mem_entries.1 hp
      obtain ⟨i, k, hk, -, rfl⟩ := (hrest.mem_entriesFrom q).1 hq
      refine ⟨?_, hfirst k (List.mem_of_getElem? hk)⟩
      have hpos := hgains.adds.length_pos hentry
      have hlength := hgains.length
      have hend := hrest.length_eq
      have hoffset := offset_le parts i
      rw [UInt32.lt_iff_toNat_lt]
      change e.length % 2 ^ 32 < (e₁.length + offset parts i) % 2 ^ 32
      omega

/-! ### The whole program -/

theorem Line.number_of_read {n : Int} {source : Text} (h : Line.read n source = .ok l) :
    l.number = n := by
  obtain ⟨⟨names, statement⟩, -, h⟩ := bind_eq_ok.1 h
  dsimp only at h
  split at h
  · exact Except.ok.inj h ▸ rfl
  · exact Except.ok.inj h ▸ rfl

theorem number_of_mapM_read {ts : List Text} {n : Nat}
    (h : (ts.zipIdx n).mapM (fun p => Line.read p.2 p.1) = .ok ls) {i : Nat} {l : Line}
    (hl : ls[i]? = some l) : l.number = n + i := by
  induction ts generalizing n ls i with
  | nil =>
    obtain rfl := Except.ok.inj h
    exact nomatch hl
  | cons t ts ih =>
    rw [List.zipIdx_cons, List.mapM_cons] at h
    obtain ⟨k, hk, h⟩ := bind_eq_ok.1 h
    obtain ⟨ks, hks, h⟩ := bind_eq_ok.1 h
    obtain rfl := Except.ok.inj h
    cases i with
    | zero =>
      obtain rfl := Option.some.inj hl
      rw [Line.number_of_read hk]
      exact (Int.add_zero _).symm
    | succ i =>
      have := ih hks hl
      omega

theorem number_of_readLines {source : Text} (h : readLines source = .ok ls) {i : Nat} {l : Line}
    (hl : ls[i]? = some l) : l.number = i + 1 := by
  have := number_of_mapM_read h hl
  omega

theorem pairwise_number {source : Text} (h : readLines source = .ok ls) :
    ls.Pairwise fun k l => k.number < l.number := by
  rw [List.pairwise_iff_getElem]
  intro i j hi hj hij
  have hki := number_of_readLines h (List.getElem?_eq_getElem hi)
  have hkj := number_of_readLines h (List.getElem?_eq_getElem hj)
  omega

theorem exists_of_assemble {source : Text} {image : Image}
    (h : (assemble source).image = .ok image) :
    ∃ ls e, readLines source = .ok ls ∧ locate 0 [] ls = ((assemble source).labels, none) ∧
      ls.foldlM (Emission.addLine (assemble source).labels) ⟨0, #[]⟩ = .ok e ∧ image = e.image := by
  unfold assemble at h ⊢
  split at h
  · rename_i ls hls
    unfold assembleLines at h ⊢
    split at h
    · rename_i labels hlocate
      obtain ⟨e, he, h⟩ := bind_eq_ok.1 h
      exact ⟨ls, e, hls, hlocate, he, (Except.ok.inj h).symm⟩
    · exact nomatch h
  · exact nomatch h

/-- **Both passes agree.** An image shorter than `2 ^ 32` bytes is laid out in parts, one for each
line, at the offsets that the first pass has given to labels. -/
theorem exists_laid {source : Text} {image : Image} (h : (assemble source).image = .ok image)
    (hlt : image.bytes.length < 2 ^ 32) :
    ∃ ls parts, Laid source (assemble source).labels image ls parts := by
  obtain ⟨ls, e, hls, hlocate, he, rfl⟩ := exists_of_assemble h
  have hbound : e.length < 2 ^ 32 := by
    obtain ⟨bs, hlength, hbytes⟩ := exists_append_of_foldlM he
    rw [hbytes] at hlt
    change ([] ++ bs).length < 2 ^ 32 at hlt
    rw [hlength, Nat.zero_add]
    exact hlt
  obtain ⟨parts, hlays⟩ := exists_lays he hbound
  have hend := hlays.length_eq
  -- offsets of the image are addresses, since the image is short
  have hoffset (i : Nat) : (offset parts i).toUInt32.toNat = offset parts i := by
    have := offset_le parts i
    exact Nat.mod_eq_of_lt (by omega)
  have haddress (a : UInt32) (i : Nat) :
      a = (0 + offset parts i).toUInt32 ↔ a.toNat = offset parts i := by
    rw [Nat.zero_add, ← UInt32.toNat_inj, hoffset]
  refine ⟨ls, parts, hls, hlays.length_parts, hlays.bytes_eq, ?_, ?_, ?_, ?_, ?_⟩
  · intro i _
    obtain ⟨e₁, he₁⟩ := hlays.exists_take i
    exact ⟨e₁, he₁.foldlM_eq, he₁.length_eq.trans (Nat.zero_add _), he₁.bytes_eq⟩
  · intro i l bs hl hbs
    have hadds := hlays.adds hl hbs
    rwa [Nat.zero_add] at hadds
  · intro name a
    rw [hlays.address?_iff hlocate]
    simp only [haddress]
    exact or_iff_right nofun
  · intro a n
    rw [hlays.sourceMap_eq]
    change (a, n) ∈ entriesFrom 0 ls parts ↔ _
    rw [hlays.mem_entriesFrom]
    simp only [Prod.mk.injEq, haddress]
    constructor
    · rintro ⟨i, l, hl, hentry, ha, rfl⟩
      exact ⟨i, l, hl, hentry, ha, number_of_readLines hls hl⟩
    · rintro ⟨i, l, hl, hentry, ha, rfl⟩
      exact ⟨i, l, hl, hentry, ha, (number_of_readLines hls hl).symm⟩
  · rw [hlays.sourceMap_eq]
    exact hlays.pairwise_entriesFrom hbound (pairwise_number hls)

/-- A program with labels, padding and data. -/
theorem exists_laid_padded :
    let source : Text := .ofString "a: halt\n.align 4\nb: .long c\n.pos 0xa\nc: rrmovl %eax, %ebx"
    let image : Image := ⟨[0, 0, 0, 0, 10, 0, 0, 0, 0, 0, 0x20, 0x03], [(0, 1), (4, 3), (10, 5)]⟩
    (assemble source).image = .ok image ∧ image.bytes.length < 2 ^ 32 ∧
      ∃ ls parts, Laid source (assemble source).labels image ls parts := by
  intro source image
  have h : (assemble source).image = .ok image := by rfl
  exact ⟨h, by decide, exists_laid h (by decide)⟩

end RpnY86.Assembly
