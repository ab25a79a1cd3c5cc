import RpnY86.Proofs.Assembly.Offsets
import RpnY86.Proofs.Assembly.Slices

/-! # What assembling ends in

A program ends in an image, an error or a defect. Padding of negative length is the one defect, and
it takes an alignment whose rounding leaves the range of a word: the rounded address then lies below
the image's length (`alignUp_lt_iff`). The first pass does not notice, and goes on from there.

`defect_iff_align_wraps` says so of whole programs. A run of the second pass that ends in a defect
completes some lines and breaks down at the next one, so the argument is about one line
(`addLine_eq_defect_iff`).

Of the errors, those about labels that are defined twice or not at all have their reasons in the
labels alone (`addressAfter_of_locate_error`, `isSome_address?_of_locate`). -/

namespace RpnY86.Assembly

/-- All lines of a program text are read, the first pass goes through, and the second pass completes
the first `i` lines with an image. -/
structure Completes (source : Text) (ls : List Line) (i : Nat) (image : Image) : Prop where
  lines : readLines source = .ok ls
  located : (locate 0 [] ls).2 = none
  emitted : emit (locate 0 [] ls).1 (ls.take i) = .ok image

variable {labels : LabelTable} {e : Emission} {l : Line} {d : Defect} {source : Text}
  {ls : List Line}

/-! ### One line -/

/-- **Rounding wraps.** The rounded address lies below `a` just if the sum to round is no word. -/
theorem alignUp_lt_iff {a : Nat} {n : UInt32} (ha : a < 2 ^ 32) (hn : n ≠ 0) :
    (alignUp a.toUInt32 n).toNat < a ↔ 2 ^ 32 ≤ a + n.toNat - 1 := by
  have hpos : 0 < n.toNat := Nat.pos_of_ne_zero fun h => hn (UInt32.toNat_inj.1 h)
  have hlt := n.toNat_lt
  have ha' : a.toUInt32.toNat = a := Nat.mod_eq_of_lt ha
  rw [toNat_alignUp hn, ha']
  constructor
  · intro h
    by_contra hfits
    rw [Nat.mod_eq_of_lt (by omega)] at h
    have := (isLeast_alignUp (a := a) hpos).1.2
    omega
  · intro h
    have hle := Nat.div_mul_le_self ((a + n.toNat - 1) % 2 ^ 32) n.toNat
    omega

theorem mapError_bind_eq_error {α β : Type} {x : Except Error α}
    {f : α → Except (Interruption Error) β} {i : Interruption Error}
    (h : (x.mapError .error >>= f) = .error i) :
    (∃ err, i = .error err ∧ x = .error err) ∨ ∃ a, x = .ok a ∧ f a = .error i := by
  cases x with
  | error err =>
    cases h
    exact .inl ⟨err, rfl, rfl⟩
  | ok a => exact .inr ⟨a, rfl, h⟩

/-- All that the second pass can stop with at a line: padding of negative length behind a directive
that moves the address, an error of the first pass, or one of operands. -/
theorem addLine_error_cases {i : Interruption Error} (h : e.addLine labels l = .error i) :
    (i = .defect .negativePadding ∧
      (l.keyword? = some (.directive .pos) ∨ l.keyword? = some (.directive .align)) ∧
      ∃ next, l.addressAfter e.length.toUInt32 = .ok next ∧ next.toNat < e.length) ∨
    ∃ err, i = .error err ∧ (l.addressAfter e.length.toUInt32 = .error err ∨
      (∃ m, l.keyword? = some (.instruction m) ∧ l.instruction labels m = .error err) ∨
      (∃ operand, l.keyword? = some (.directive .long) ∧ l.operands = [operand] ∧
        l.word labels operand = .error err)) := by
  have hmove {next : UInt32} (h : (if next.toNat < e.length then .error (.defect .negativePadding)
      else .ok (e.add none (List.replicate (next.toNat - e.length) 0)) :
        Except (Interruption Error) Emission) = .error i) :
      i = .defect .negativePadding ∧ next.toNat < e.length := by
    split at h
    · rename_i hlt
      cases h
      exact ⟨rfl, hlt⟩
    · cases h
  unfold Emission.addLine at h
  split at h
  · cases h
  rename_i name hname
  have hkeyword : l.keyword? = Keyword.ofName? name := by
    rw [Line.keyword?, hname, Option.bind_some]
  split at h
  · rename_i hk
    obtain ⟨err, hi, h⟩ | ⟨next, hnext, h⟩ := mapError_bind_eq_error h
    · exact .inr ⟨err, hi, .inl h⟩
    · exact .inl ⟨(hmove h).1, .inl (hkeyword.trans hk), next, hnext, (hmove h).2⟩
  · rename_i hk
    obtain ⟨err, hi, h⟩ | ⟨next, hnext, h⟩ := mapError_bind_eq_error h
    · exact .inr ⟨err, hi, .inl h⟩
    · exact .inl ⟨(hmove h).1, .inr (hkeyword.trans hk), next, hnext, (hmove h).2⟩
  · rename_i hk
    split at h
    · rename_i operand ho
      obtain ⟨err, hi, h⟩ | ⟨v, -, h⟩ := mapError_bind_eq_error h
      · exact .inr ⟨err, hi, .inr (.inr ⟨operand, hkeyword.trans hk, ho, h⟩)⟩
      · cases h
    · cases h
      refine .inr ⟨_, rfl, .inl ?_⟩
      simp only [Line.addressAfter, hname, hk]
      rfl
  · rename_i m hk
    obtain ⟨err, hi, h⟩ | ⟨j, -, h⟩ := mapError_bind_eq_error h
    · exact .inr ⟨err, hi, .inr (.inl ⟨m, hkeyword.trans hk, h⟩)⟩
    · cases h
  · rename_i hk
    cases h
    refine .inr ⟨_, rfl, .inl ?_⟩
    simp only [Line.addressAfter, hname, hk]
    rfl

/-- An origin never lies below the address of its line. -/
theorem le_of_addressAfter_pos {address next : UInt32}
    (hk : l.keyword? = some (.directive .pos)) (h : l.addressAfter address = .ok next) :
    address.toNat ≤ next.toNat := by
  obtain ⟨name, hname, hkeyword⟩ := Option.bind_eq_some_iff.1 hk
  simp only [Line.addressAfter, hname, hkeyword, bind_eq_ok] at h
  obtain ⟨n, -, h⟩ := h
  split at h
  · cases h
  · rename_i hle
    obtain rfl := Except.ok.inj h
    exact UInt32.not_lt.1 hle

theorem addressAfter_align {address : UInt32} (hk : l.keyword? = some (.directive .align))
    {next : UInt32} : l.addressAfter address = .ok next ↔
      ∃ n, l.directiveNumber .align = .ok n ∧ n ≠ 0 ∧ next = alignUp address n := by
  obtain ⟨name, hname, hkeyword⟩ := Option.bind_eq_some_iff.1 hk
  simp only [Line.addressAfter, hname, hkeyword, bind_eq_ok]
  constructor
  · rintro ⟨n, hn, h⟩
    split at h
    · cases h
    · rename_i hzero
      exact ⟨n, hn, hzero, (Except.ok.inj h).symm⟩
  · rintro ⟨n, hn, hzero, rfl⟩
    exact ⟨n, hn, if_neg hzero⟩

/-- **One line.** The second pass breaks down at an alignment of which the sum to round is no word,
and at no other line. -/
theorem addLine_eq_defect_iff (ha : e.length < 2 ^ 32) :
    e.addLine labels l = .error (.defect d) ↔
      d = .negativePadding ∧ l.keyword? = some (.directive .align) ∧
        ∃ n, l.directiveNumber .align = .ok n ∧ 2 ^ 32 ≤ e.length + n.toNat - 1 := by
  have ha' : e.length.toUInt32.toNat = e.length := Nat.mod_eq_of_lt ha
  constructor
  · intro h
    obtain ⟨hd, hk | hk, next, hnext, hlt⟩ | ⟨err, hd, -⟩ := addLine_error_cases h
    · have := le_of_addressAfter_pos hk hnext
      omega
    · obtain ⟨n, hn, hzero, rfl⟩ := (addressAfter_align hk).1 hnext
      exact ⟨Interruption.defect.inj hd, hk, n, hn, (alignUp_lt_iff ha hzero).1 hlt⟩
    · cases hd
  · rintro ⟨rfl, hk, n, hn, hwraps⟩
    have hzero : n ≠ 0 := by
      rintro rfl
      rw [UInt32.toNat_zero] at hwraps
      omega
    have hnext : l.addressAfter e.length.toUInt32 = .ok (alignUp e.length.toUInt32 n) :=
      (addressAfter_align hk).2 ⟨n, hn, hzero, rfl⟩
    obtain ⟨name, hname, hkeyword⟩ := Option.bind_eq_some_iff.1 hk
    simp only [Emission.addLine, hname, hkeyword, hnext]
    exact if_pos ((alignUp_lt_iff ha hzero).2 hwraps)

/-! ### Whole programs -/

theorem emit_eq_ok {image : Image} : emit labels ls = .ok image ↔
    ∃ e, ls.foldlM (Emission.addLine labels) ⟨0, #[]⟩ = .ok e ∧ e.image = image := map_eq_ok

theorem emit_eq_error {i : Interruption Error} : emit labels ls = .error i ↔
    ls.foldlM (Emission.addLine labels) ⟨0, #[]⟩ = .error i := by
  rw [emit]
  cases ls.foldlM (Emission.addLine labels) ⟨0, #[]⟩ with
  | error e' => simp [Functor.map, Except.map]
  | ok e => simp [Functor.map, Except.map]

theorem length_of_foldlM (h : ls.foldlM (Emission.addLine labels) ⟨0, #[]⟩ = .ok e) :
    e.image.bytes.length = e.length := by
  obtain ⟨bs, hlength, hbytes⟩ := exists_append_of_foldlM h
  rw [hbytes, hlength]
  exact (Nat.zero_add bs.length).symm

/-- Where assembling ends: at a line that cannot be read, in the first pass, or with the second. -/
theorem assemble_cases (source : Text) :
    (∃ e, readLines source = .error e ∧ (assemble source).image = .error (.error e)) ∨
      ∃ ls, readLines source = .ok ls ∧
        ((∃ e, (locate 0 [] ls).2 = some e ∧ (assemble source).image = .error (.error e)) ∨
          (locate 0 [] ls).2 = none ∧
            (assemble source).image = emit (locate 0 [] ls).1 ls) := by
  unfold assemble
  cases hread : readLines source with
  | error e => exact .inl ⟨e, rfl, rfl⟩
  | ok ls =>
    refine .inr ⟨ls, rfl, ?_⟩
    dsimp only
    unfold assembleLines
    split
    · rename_i hlocate
      rw [hlocate]
      exact .inr ⟨rfl, rfl⟩
    · rename_i e hlocate
      rw [hlocate]
      exact .inl ⟨e, rfl, rfl⟩

/-- A program breaks down in the second pass, at the line behind those that it completes. -/
theorem assemble_eq_defect_iff :
    (assemble source).image = .error (.defect d) ↔
      ∃ ls i l e, readLines source = .ok ls ∧ (locate 0 [] ls).2 = none ∧ ls[i]? = some l ∧
        (ls.take i).foldlM (Emission.addLine (locate 0 [] ls).1) ⟨0, #[]⟩ = .ok e ∧
        e.addLine (locate 0 [] ls).1 l = .error (.defect d) := by
  rcases assemble_cases source with ⟨e', hread, himage⟩ |
    ⟨ls, hread, ⟨e', hlocate, himage⟩ | ⟨hlocate, himage⟩⟩ <;> rw [himage]
  · constructor
    · intro h
      cases h
    · rintro ⟨ls, _, _, _, hls, -⟩
      cases hread.symm.trans hls
  · constructor
    · intro h
      cases h
    · rintro ⟨ls', _, _, _, hls, hnone, -⟩
      obtain rfl := Except.ok.inj (hread.symm.trans hls)
      cases hlocate.symm.trans hnone
  · rw [emit_eq_error, foldlM_eq_error_iff]
    constructor
    · rintro ⟨i, l, e, hl, he, hdefect⟩
      exact ⟨ls, i, l, e, hread, hlocate, hl, he, hdefect⟩
    · rintro ⟨ls', i, l, e, hls, -, hl, he, hdefect⟩
      obtain rfl := Except.ok.inj (hread.symm.trans hls)
      exact ⟨i, l, e, hl, he, hdefect⟩

/-- **When assembling breaks down.** As long as the image stays shorter than `2 ^ 32` bytes, just
those programs end in a defect whose second pass comes to an alignment of which the sum to round is
no word. All others have an image or an error. No origin is the reason, and no text of a line or an
operand: both are cut within their bounds. -/
theorem defect_iff_align_wraps
    (h : ∀ ls i image, Completes source ls i image → image.bytes.length < 2 ^ 32) :
    ((∃ d, (assemble source).image = .error (.defect d)) ↔
        ∃ ls i image l n, Completes source ls i image ∧ ls[i]? = some l ∧
          l.keyword? = some (.directive .align) ∧ l.directiveNumber .align = .ok n ∧
          2 ^ 32 ≤ image.bytes.length + n.toNat - 1) ∧
      ((¬∃ d, (assemble source).image = .error (.defect d)) →
        (∃ image, (assemble source).image = .ok image) ∨
          ∃ e, (assemble source).image = .error (.error e)) ∧
      (∀ ls i image l, Completes source ls i image → ls[i]? = some l →
        l.keyword? ≠ some (.directive .align) →
        ∀ d, emit (locate 0 [] ls).1 (ls.take (i + 1)) ≠ .error (.defect d)) ∧
      (∀ number t, slicedRead? number t = some (Line.read number t)) ∧
      ∀ (l : Line) labels operand,
        l.slicedPlace? labels operand = some (l.place labels operand) := by
  -- a line that is reached starts at a word, so `addLine_eq_defect_iff` applies to it
  have hshort {ls : List Line} {i : Nat} {e : Emission} (hls : readLines source = .ok ls)
      (hlocate : (locate 0 [] ls).2 = none)
      (he : (ls.take i).foldlM (Emission.addLine (locate 0 [] ls).1) ⟨0, #[]⟩ = .ok e) :
      Completes source ls i e.image ∧ e.length < 2 ^ 32 := by
    have hcompletes : Completes source ls i e.image :=
      ⟨hls, hlocate, emit_eq_ok.2 ⟨e, he, rfl⟩⟩
    have := h _ _ _ hcompletes
    rw [length_of_foldlM he] at this
    exact ⟨hcompletes, this⟩
  refine ⟨⟨?_, ?_⟩, ?_, ?_, slicedRead?_eq, fun l => l.slicedPlace?_eq⟩
  · rintro ⟨d, hd⟩
    obtain ⟨ls, i, l, e, hls, hlocate, hl, he, hdefect⟩ := assemble_eq_defect_iff.1 hd
    obtain ⟨hcompletes, hlt⟩ := hshort hls hlocate he
    obtain ⟨-, hk, n, hn, hwraps⟩ := (addLine_eq_defect_iff hlt).1 hdefect
    rw [← length_of_foldlM he] at hwraps
    exact ⟨ls, i, e.image, l, n, hcompletes, hl, hk, hn, hwraps⟩
  · rintro ⟨ls, i, image, l, n, hcompletes, hl, hk, hn, hwraps⟩
    obtain ⟨e, he, rfl⟩ := emit_eq_ok.1 hcompletes.emitted
    obtain ⟨-, hlt⟩ := hshort hcompletes.lines hcompletes.located he
    rw [length_of_foldlM he] at hwraps
    exact ⟨.negativePadding, assemble_eq_defect_iff.2 ⟨ls, i, l, e, hcompletes.lines,
      hcompletes.located, hl, he, (addLine_eq_defect_iff hlt).2 ⟨rfl, hk, n, hn, hwraps⟩⟩⟩
  · intro hnone
    cases himage : (assemble source).image with
    | ok image => exact .inl ⟨image, rfl⟩
    | error i =>
      cases i with
      | error e => exact .inr ⟨e, rfl⟩
      | defect d => exact absurd ⟨d, himage⟩ hnone
  · intro ls i image l hcompletes hl hk d hd
    obtain ⟨e, he, rfl⟩ := emit_eq_ok.1 hcompletes.emitted
    obtain ⟨-, hlt⟩ := hshort hcompletes.lines hcompletes.located he
    rw [emit_eq_error, List.take_add_one, hl, Option.toList_some, List.foldlM_append, he] at hd
    change [l].foldlM (Emission.addLine (locate 0 [] ls).1) e = .error (.defect d) at hd
    simp only [List.foldlM_cons, List.foldlM_nil, bind_pure] at hd
    exact hk ((addLine_eq_defect_iff hlt).1 hd).2.1

/-- An alignment that wraps to address 0, from where the first pass reaches an origin below it. -/
theorem defect_iff_align_wraps_below :
    let source : Text := .ofString ".pos 2\n.align 0xffffffff\n.pos 1"
    (∀ ls i image, Completes source ls i image → image.bytes.length < 2 ^ 32) ∧
      ∃ d, (assemble source).image = .error (.defect d) := by
  intro source
  have hread : readLines source = .ok [⟨1, [], some ".pos", [Text.ofString "2"]⟩,
      ⟨2, [], some ".align", [Text.ofString "0xffffffff"]⟩,
      ⟨3, [], some ".pos", [Text.ofString "1"]⟩] := by rfl
  have hshort : ∀ ls i image, Completes source ls i image → image.bytes.length < 2 ^ 32 := by
    rintro ls i image ⟨hls, -, himage⟩
    obtain rfl := Except.ok.inj (hread.symm.trans hls)
    rcases i with _ | _ | i
    · obtain rfl := Except.ok.inj himage
      decide
    · obtain rfl := Except.ok.inj himage
      decide
    · cases himage
  exact ⟨hshort, (defect_iff_align_wraps hshort).1.2 ⟨_, 1, ⟨[0, 0], []⟩, _, 0xffffffff,
    ⟨hread, by rfl, by rfl⟩, rfl, by decide, by decide, by decide⟩⟩

/-! ### Errors about labels -/

/-- An error about a label that is defined twice or not at all. -/
def Error.IsAboutLabel (e : Error) : Prop :=
  (∃ name, e.problem = .duplicateLabel name) ∨ ∃ name, e.problem = .undefinedLabel name

theorem not_isAboutLabel_of_directiveNumber {k : Directive} {err : Error}
    (h : l.directiveNumber k = .error err) : ¬ err.IsAboutLabel := by
  unfold Line.directiveNumber at h
  split at h
  · split at h
    · cases h
    · cases h
      simp [Error.IsAboutLabel]
  · cases h
    simp [Error.IsAboutLabel]

/-- Addresses do not depend on labels. -/
theorem not_isAboutLabel_of_addressAfter {a : UInt32} {err : Error}
    (h : l.addressAfter a = .error err) : ¬ err.IsAboutLabel := by
  have hnumber {k : Directive} {f : UInt32 → Except Error UInt32}
      (h : (l.directiveNumber k >>= f) = .error err)
      (hf : ∀ n, f n = .error err → ¬ err.IsAboutLabel) : ¬ err.IsAboutLabel := by
    cases hn : l.directiveNumber k with
    | error e =>
      rw [hn] at h
      cases h
      exact not_isAboutLabel_of_directiveNumber hn
    | ok n =>
      rw [hn] at h
      exact hf n h
  unfold Line.addressAfter at h
  split at h
  · cases h
  split at h
  · refine hnumber h fun n hn => ?_
    split at hn
    · cases hn
      simp [Error.IsAboutLabel]
    · cases hn
  · refine hnumber h fun n hn => ?_
    split at hn
    · cases hn
      simp [Error.IsAboutLabel]
    · cases hn
  · split at h
    · cases h
    · cases h
      simp [Error.IsAboutLabel]
  · cases h
  · cases h
    simp [Error.IsAboutLabel]

theorem exists_define (a : UInt32) {t : LabelTable} {names : List String} (hd : names.Nodup)
    (hnew : ∀ name ∈ names, t.address? name = none) : ∃ u, t.define a names = (u, none) := by
  induction names generalizing t with
  | nil => exact ⟨t, rfl⟩
  | cons name names ih =>
    obtain ⟨hfirst, hd⟩ := List.nodup_cons.1 hd
    have hnone := hnew name (List.mem_cons_self ..)
    rw [LabelTable.define, hnone, Option.isSome_none, if_neg Bool.false_ne_true]
    refine ih hd fun other hother => ?_
    have hne : other ≠ name := fun h => hfirst (h ▸ hother)
    rw [LabelTable.address?, List.lookup_cons, beq_false_of_ne hne]
    exact hnew other (List.mem_cons_of_mem name hother)

/-- **No label twice.** Then the first pass fails only where there is no next address. -/
theorem addressAfter_of_locate_error {a : UInt32} {t : LabelTable} {err : Error}
    (hd : (ls.flatMap Line.labels).Nodup)
    (hnew : ∀ name ∈ ls.flatMap Line.labels, t.address? name = none)
    (h : (locate a t ls).2 = some err) : ∃ l b, Line.addressAfter l b = .error err := by
  induction ls generalizing a t with
  | nil => cases h
  | cons l ls ih =>
    rw [List.flatMap_cons] at hd hnew
    obtain ⟨hfirst, hrest, hapart⟩ := List.nodup_append.1 hd
    obtain ⟨u, hu⟩ := exists_define a hfirst fun name hname =>
      hnew name (List.mem_append_left _ hname)
    rw [locate, hu] at h
    dsimp only at h
    cases hnext : l.addressAfter a with
    | error e =>
      rw [hnext] at h
      exact ⟨l, a, by rw [hnext, Option.some.inj h]⟩
    | ok next =>
      rw [hnext] at h
      refine ih hrest (fun name hname => ?_) h
      -- a label of a later line is none of this one
      rw [Option.eq_none_iff_forall_ne_some]
      intro b hb
      rcases (address?_define hu name b).1 hb with hb | ⟨hmem, -⟩
      · rw [hnew name (List.mem_append_right _ hname)] at hb
        cases hb
      · exact hapart name hmem name hname rfl

theorem isSome_address?_of_locate {a : UInt32} {t u : LabelTable}
    (h : locate a t ls = (u, none)) {name : String} (hname : name ∈ ls.flatMap Line.labels) :
    (u.address? name).isSome := by
  induction ls generalizing a t with
  | nil => cases hname
  | cons l ls ih =>
    rw [locate] at h
    split at h
    · cases h
    · rename_i t' hdefine
      split at h
      · rw [List.flatMap_cons] at hname
        rcases List.mem_append.1 hname with hname | hname
        · rw [address?_of_locate h ((address?_define hdefine name a).2 (.inr ⟨hname, rfl⟩))]
          rfl
        · exact ih h hname
      · cases h

end RpnY86.Assembly
