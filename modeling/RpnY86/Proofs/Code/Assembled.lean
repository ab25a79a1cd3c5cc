import RpnY86.Proofs.Code.Layout

/-! # Assembled programs

A program is assembled if and only if its stack region is `Roomy`: the region lies above the code,
below the end of the address space, and its size can be written. `assemble_program` gives labels and
image of such a program; `assemble_program_error` says what becomes of all others. -/

namespace RpnY86.Code

open Assembly (Chunk Contiguous Emission Image LabelTable assemble emit locate word_eq)
open Y86 (Instruction wordBytes)

/-! ### Stack regions -/

/-- The region lies above code of length `n` and below the end of the address space. -/
structure StackRegion.Roomy (r : StackRegion) (n : Nat) : Prop where
  size_nonneg : 0 ≤ r.size.toInt
  top_lt : r.top.toInt < 2 ^ 32
  fits : n + 4 * r.size.toInt ≤ r.top.toInt

namespace StackRegion

variable {r : StackRegion}

theorem toInt_four_mul (h : 0 ≤ r.size.toInt) (h' : r.size.toInt < 2 ^ 32) :
    (4 * r.size).toInt = 4 * r.size.toInt := by
  have h4 : (4 : Int64).toInt = 4 := rfl
  rw [Int64.toInt_mul, h4, Int.bmod_eq_of_le (by omega) (by omega)]

theorem toInt_limit (h : 0 ≤ r.size.toInt) (h' : r.size.toInt < 2 ^ 32)
    (ht : 0 ≤ r.top.toInt) : r.limit.toInt = r.top.toInt - 4 * r.size.toInt := by
  have := r.top.toInt_lt
  rw [limit, Int64.toInt_sub, toInt_four_mul h h', Int.bmod_eq_of_le (by omega) (by omega)]

theorem Roomy.size_lt {n : Nat} (h : r.Roomy n) : r.size.toInt < 2 ^ 32 := by
  have h1 := h.size_nonneg
  have h2 := h.top_lt
  have h3 := h.fits
  omega

theorem Roomy.toInt_limit {n : Nat} (h : r.Roomy n) :
    r.limit.toInt = r.top.toInt - 4 * r.size.toInt := by
  have h1 := h.size_nonneg
  have h3 := h.fits
  exact StackRegion.toInt_limit h1 h.size_lt (by omega)

theorem Roomy.fits_eq_true {n : Nat} (h : r.Roomy n) : r.fits = true := by
  have h1 := h.size_nonneg
  have h3 := h.fits
  simp only [StackRegion.fits, Bool.and_eq_true, decide_eq_true_eq, Int64.le_iff_toInt_le]
  rw [toInt_four_mul h1 h.size_lt]
  exact ⟨h1, by omega⟩

theorem size_nonneg_of_fits (h : r.fits = true) : 0 ≤ r.size.toInt := by
  simp only [StackRegion.fits, Bool.and_eq_true, decide_eq_true_eq, Int64.le_iff_toInt_le] at h
  exact h.1

end StackRegion

/-! ### The stack region as text -/

theorem directiveNumber_hex {l : Assembly.Line} {n : Int} (d : Assembly.Directive)
    (hl : l.operands = [.ofString ("0x" ++ Numeral.hex n)]) :
    (0 ≤ n ∧ n < 2 ^ 32 ∧ l.directiveNumber d = .ok n.toNat.toUInt32) ∨
      ¬ (0 ≤ n ∧ n < 2 ^ 32) ∧ ∃ e, l.directiveNumber d = .error e := by
  have hchars : Text.chars (.ofString ("0x" ++ Numeral.hex n)) =
      '0' :: 'x' :: Numeral.signedDigits 16 n := by
    rw [chars_ofString, String.toList_append, Numeral.hex, String.toList_ofList,
      String.toList_ofList]
    rfl
  unfold Assembly.Line.directiveNumber
  simp only [hl, hchars]
  cases n with
  | ofNat k =>
    rw [Numeral.signedDigits, Numeral.readUnsigned_hex]
    by_cases hk : k < 2 ^ 32
    · rw [if_pos hk]
      exact .inl ⟨Int.natCast_nonneg k, Int.ofNat_lt.2 hk, rfl⟩
    · rw [if_neg hk]
      exact .inr ⟨fun h => hk (Int.ofNat_lt.1 h.2), _, rfl⟩
  | negSucc k =>
    refine .inr ⟨fun h => ?_, _, rfl⟩
    have hneg := Int.negSucc_lt_zero k
    omega

/-! ### The first pass over the stack region -/

section

variable {r : StackRegion} {t : LabelTable} {a : UInt32} {n : Int}

theorem toNat_toUInt32 {v : Int} (h' : v < 2 ^ 32) : v.toNat.toUInt32.toNat = v.toNat := by
  change v.toNat % 2 ^ 32 = v.toNat
  omega

/-- Whether a directive can go from address `a` to `v`: to an address, and not backward. -/
def Reaches (a : UInt32) (v : Int) : Prop := 0 ≤ v ∧ v < 2 ^ 32 ∧ a.toNat ≤ v.toNat

theorem addressAfter_pos {v : Int} (h : Reaches a v) :
    ((directive .pos ("0x" ++ Numeral.hex v)).parsed n).addressAfter a =
      .ok v.toNat.toUInt32 := by
  obtain ⟨h1, h2, h3⟩ := h
  have hm : ((directive .pos ("0x" ++ Numeral.hex v)).parsed n).mnemonic =
    some (Statement.directive .pos ("0x" ++ Numeral.hex v)).name := rfl
  unfold Assembly.Line.addressAfter
  simp only [hm, ofName?_name]
  rcases directiveNumber_hex (l := (directive .pos ("0x" ++ Numeral.hex v)).parsed n) .pos rfl with
    ⟨-, -, hv⟩ | ⟨hv, -⟩
  · rw [hv]
    refine if_neg ?_
    rw [UInt32.lt_iff_toNat_lt, toNat_toUInt32 h2]
    omega
  · exact absurd ⟨h1, h2⟩ hv

theorem exists_addressAfter_pos_error {v : Int} (h : ¬ Reaches a v) :
    ∃ e, ((directive .pos ("0x" ++ Numeral.hex v)).parsed n).addressAfter a = .error e := by
  have hm : ((directive .pos ("0x" ++ Numeral.hex v)).parsed n).mnemonic =
    some (Statement.directive .pos ("0x" ++ Numeral.hex v)).name := rfl
  unfold Assembly.Line.addressAfter
  simp only [hm, ofName?_name]
  rcases directiveNumber_hex (l := (directive .pos ("0x" ++ Numeral.hex v)).parsed n) .pos rfl with
    ⟨h1, h2, hv⟩ | ⟨-, e, he⟩
  · rw [hv]
    refine ⟨_, if_pos ?_⟩
    rw [UInt32.lt_iff_toNat_lt, toNat_toUInt32 h2]
    by_contra hlt
    exact h ⟨h1, h2, by omega⟩
  · rw [he]
    exact ⟨e, rfl⟩

/-- The stack region can be reached from address `a`. -/
def StackRegion.Ahead (r : StackRegion) (a : UInt32) : Prop :=
  Reaches a r.limit.toInt ∧ Reaches r.limit.toInt.toNat.toUInt32 r.top.toInt

theorem stackLines_eq (r : StackRegion) :
    stackLines r =
      [.comment ("The stack region holds " ++ Numeral.decimal r.size.toInt ++
        " values below Stack, above the code")] ++
      ([directive .pos ("0x" ++ Numeral.hex r.limit.toInt)] ++
      ([.mark "StackLimit"] ++ ([directive .pos ("0x" ++ Numeral.hex r.top.toInt)] ++
      [.mark "Stack"]))) := rfl

theorem locates_comment (text : String) : Locates a t n [.comment text] a t := fun _ => rfl

theorem locates_mark {name : String} (h : t.address? name = none) :
    Locates a t n [.mark name] a ((name, a) :: t) :=
  locates_singleton (fun _ hn => Option.some.inj hn ▸ h) rfl

theorem locates_pos {v : Int} (h : Reaches a v) :
    Locates a t n [directive .pos ("0x" ++ Numeral.hex v)] v.toNat.toUInt32 t :=
  locates_singleton (fun _ hn => nomatch hn) (addressAfter_pos h)

theorem stops_pos {v : Int} (h : ¬ Reaches a v) (ls : List Line) :
    Stops a t n (directive .pos ("0x" ++ Numeral.hex v) :: ls) :=
  stops_of_error (l := directive .pos ("0x" ++ Numeral.hex v)) (fun _ hn => nomatch hn)
    (exists_addressAfter_pos_error h) ls

/-- **The first pass** gets over a stack region that lies ahead. -/
theorem locates_stackLines (h : r.Ahead a) (ht : t.address? "Stack" = none)
    (ht' : t.address? "StackLimit" = none) :
    Locates a t n (stackLines r) r.top.toInt.toNat.toUInt32
      (("Stack", r.top.toInt.toNat.toUInt32) :: ("StackLimit", r.limit.toInt.toNat.toUInt32) ::
        t) := by
  have hnew : LabelTable.address? (("StackLimit", r.limit.toInt.toNat.toUInt32) :: t) "Stack" =
      none := by
    rw [address?_cons, if_neg (by decide), ht]
  rw [stackLines_eq]
  exact (locates_comment _).append ((locates_pos h.1).append ((locates_mark ht').append
    ((locates_pos h.2).append (locates_mark hnew))))

theorem stops_stackLines (h : ¬ r.Ahead a) (ht' : t.address? "StackLimit" = none) :
    Stops a t n (stackLines r) := by
  rw [stackLines_eq]
  refine (locates_comment _).stops ?_
  by_cases h1 : Reaches a r.limit.toInt
  · refine (locates_pos h1).stops ((locates_mark ht').stops ?_)
    exact stops_pos (fun h2 => h ⟨h1, h2⟩) _
  · exact stops_pos h1 _

end

/-! ### The second pass -/

section

variable {os : List Operation} {fs : List (List Line)} {r : StackRegion} {labels : LabelTable}

theorem legible_of_mem_head {ls : List Line} (h : ∀ l ∈ ls, l ∈ head 0) : ∀ l ∈ ls, l.Legible :=
  fun l hl => legible_head 0 l (h l hl)

theorem emits_start (h : Resolved labels setup) :
    Emits labels 0 1 start (startChunks labels) 20 := by
  have hpreamble : Emits labels 0 1 preamble [] 0 := fun chunks => by
    rw [Array.append_empty]
    rfl
  have hpos : Emits labels 0 5 [directive .pos "0"] [⟨0, none, []⟩] 0 :=
    emits_directive (b := 0) (.inl rfl) rfl (Nat.le_refl 0)
  have hsetup : Emits labels 0 6 setup (codeChunks labels 0 6 setup) 17 :=
    emits_code (legible_of_mem_head fun l hl => List.mem_of_mem_drop (List.mem_of_mem_take hl))
      (by decide) h 0 6
  have halign : Emits labels 17 11 [directive .align "4"] [⟨17, none, [0, 0, 0]⟩] 20 :=
    emits_directive (b := 20) (.inr rfl) rfl (by decide)
  exact hpreamble.append (hpos.append (hsetup.append halign))

theorem emits_head {size : Int64} (hs : Resolved labels setup) (he : Resolved labels entry)
    (h : 0 ≤ size.toInt) (h' : size.toInt < 2 ^ 32) :
    Emits labels 0 1 (head size) (headChunks labels size) 56 := by
  have hentry : Emits labels 40 18 entry (codeChunks labels 40 18 entry) 56 :=
    emits_code (legible_of_mem_head fun l hl => List.mem_of_mem_drop hl) (by decide) he 40 18
  rw [head_eq]
  exact (emits_start hs).append ((emits_dataLines h h').append hentry)

/-- The chunks of a program's code. -/
def programChunks (labels : LabelTable) (size : Int64) (fs : List (List Line)) : List Chunk :=
  headChunks labels size ++ codeChunks labels 56 28 fs.flatten ++
    codeChunks labels (56 + Code.size fs.flatten) (28 + fs.flatten.length) tailCode

theorem isCode_tailCode : ∀ l ∈ tailCode, l.isCode = true := by decide

theorem legible_tailCode : ∀ l ∈ tailCode, l.Legible := fun l hl =>
  legible_tail ⟨0, 0⟩ l (List.mem_append_left _ hl)

/-- The labels of a program with a given stack region. -/
abbrev labelsOf (fs : List (List Line)) (r : StackRegion) : LabelTable :=
  table fs r.limit.toInt.toNat.toUInt32 r.top.toInt.toNat.toUInt32

/-- **The second pass** gets over the code of a program. -/
theorem emits_program (h : fragments os = .ok fs) (hs : 0 ≤ r.size.toInt)
    (hs' : r.size.toInt < 2 ^ 32) :
    Emits (labelsOf fs r) 0 1 (head r.size ++ fs.flatten ++ tailCode)
      (programChunks (labelsOf fs r) r.size fs) (codeEnd fs) := by
  have hhead : Emits (labelsOf fs r) 0 1 (head r.size) _ 56 :=
    emits_head (resolved_setup h _ _) (resolved_entry h _ _) hs hs'
  have hbody : Emits (labelsOf fs r) 56 28 fs.flatten _ _ :=
    emits_code (legible_fragments h) (isCode_fragments h) (resolved_fragments h _ _) 56 28
  have htail : Emits (labelsOf fs r) (56 + size fs.flatten) (28 + fs.flatten.length) tailCode _ _ :=
    emits_code legible_tailCode isCode_tailCode (resolved_tailCode h _ _) _ _
  have hlen : (1 : Int) + (head r.size ++ fs.flatten).length = 28 + fs.flatten.length := by
    rw [List.length_append, Int.natCast_add, ← Int.add_assoc]
    rfl
  refine (hhead.append hbody).append ?_
  rw [hlen]
  exact htail

/-- The lines of a program. -/
def programLines (fs : List (List Line)) (r : StackRegion) : List Line :=
  head r.size ++ fs.flatten ++ tail r

theorem program_eq (fs : List (List Line)) (r : StackRegion) :
    program (render fs.flatten) r = render (programLines fs r) := by
  simp only [program, programLines, render, List.map_append, String.join_append]

theorem legible_programLines (h : fragments os = .ok fs) (r : StackRegion) :
    ∀ l ∈ programLines fs r, l.Legible := by
  unfold programLines
  exact List.forall_mem_append.2 ⟨List.forall_mem_append.2
    ⟨legible_head r.size, legible_fragments h⟩, legible_tail r⟩

/-- The zeros behind the code, up to the stack and up to its top. -/
def stackChunks (r : StackRegion) (n : Nat) : List Chunk :=
  [⟨n, none, List.replicate (r.limit.toInt.toNat - n) 0⟩,
   ⟨r.limit.toInt.toNat, none, List.replicate (r.top.toInt.toNat - r.limit.toInt.toNat) 0⟩]

theorem emits_pos {v : Int} {a : Nat} {n : Int} (h : Reaches a.toUInt32 v) (ha : a ≤ v.toNat) :
    Emits labels a n [directive .pos ("0x" ++ Numeral.hex v)]
      [⟨a, none, List.replicate (v.toNat - a) 0⟩] v.toNat := by
  have hv := toNat_toUInt32 h.2.1
  have hemits : Emits labels a n _ _ _ :=
    emits_directive (.inl rfl) (addressAfter_pos h) (by rw [hv]; exact ha)
  rwa [hv] at hemits

theorem emits_stackLines {a : Nat} {n : Int} (h : r.Ahead a.toUInt32)
    (ha : a ≤ r.limit.toInt.toNat) :
    Emits labels a n (stackLines r) (stackChunks r a) r.top.toInt.toNat := by
  have hle : r.limit.toInt.toNat ≤ r.top.toInt.toNat := by
    have := h.2.2.2
    rwa [toNat_toUInt32 h.1.2.1] at this
  rw [stackLines_eq]
  exact (emits_of_none rfl _ _).append ((emits_pos h.1 ha).append ((emits_of_none rfl _ _).append
    ((emits_pos h.2 hle).append (emits_of_none rfl _ _))))

/-- The image of a program. -/
def programImage (fs : List (List Line)) (r : StackRegion) : Image :=
  Emission.image
    { length := r.top.toInt.toNat
      chunks := (programChunks (labelsOf fs r) r.size fs ++ stackChunks r (codeEnd fs)).toArray }

theorem assemble_eq (h : fragments os = .ok fs) (r : StackRegion) :
    assemble (.ofString (program (render fs.flatten) r)) =
      Assembly.assembleLines
        (listing 1 ((head r.size ++ fs.flatten ++ tailCode) ++ (stackLines r ++ [.blank]))) := by
  have hlines : programLines fs r ++ [.blank] =
      (head r.size ++ fs.flatten ++ tailCode) ++ (stackLines r ++ [.blank]) := by
    simp [programLines, tail_eq, List.append_assoc]
  rw [assemble, program_eq, readLines_render (legible_programLines h r), hlines]

theorem StackRegion.Roomy.le_limit {n : Nat} (h : r.Roomy n) :
    n ≤ r.limit.toInt.toNat ∧ r.limit.toInt ≤ r.top.toInt ∧ r.limit.toInt < 2 ^ 32 := by
  have h1 := h.size_nonneg
  have h2 := h.top_lt
  have h3 := h.fits
  rw [h.toInt_limit]
  omega

theorem StackRegion.Roomy.ahead {n : Nat} (h : r.Roomy n) : r.Ahead n.toUInt32 := by
  obtain ⟨h1, h2, h3⟩ := h.le_limit
  have h4 := h.fits
  have h5 := h.size_nonneg
  have hn : n.toUInt32.toNat ≤ n := Nat.mod_le n (2 ^ 32)
  have h0 : 0 ≤ r.limit.toInt := by
    rw [h.toInt_limit]
    omega
  refine ⟨⟨h0, h3, by omega⟩, by omega, h.top_lt, ?_⟩
  rw [toNat_toUInt32 h3]
  omega

theorem address?_stack (h : fragments os = .ok fs) :
    (codeTable fs).address? "Stack" = none ∧ (codeTable fs).address? "StackLimit" = none := by
  rw [address?_codeTable h (by decide) (by decide), address?_codeTable h (by decide) (by decide)]
  decide

theorem locates_code_stackLines (h : fragments os = .ok fs) (ha : r.Ahead (codeEnd fs).toUInt32) :
    locate 0 [] (listing 1 ((head r.size ++ fs.flatten ++ tailCode) ++ (stackLines r ++ [.blank]))) =
      (labelsOf fs r, none) := by
  rw [listing_append, locates_program h, listing_append,
    locates_stackLines ha (address?_stack h).1 (address?_stack h).2]
  rfl

/-- **A program with a roomy stack region** is assembled. -/
theorem assemble_program (h : fragments os = .ok fs) (hr : r.Roomy (codeEnd fs)) :
    assemble (.ofString (program (render fs.flatten) r)) =
      { labels := labelsOf fs r, image := .ok (programImage fs r) } := by
  have hlocate := locates_code_stackLines h hr.ahead
  have hemits := (emits_program h hr.size_nonneg hr.size_lt).append
    ((emits_stackLines hr.ahead hr.le_limit.1).append (emits_of_none (l := .blank) rfl _ _))
  rw [assemble_eq h, Assembly.assembleLines, hlocate]
  simp only [emit]
  rw [hemits #[]]
  simp only [List.append_nil, Array.empty_append, programImage]
  rfl

/-! ### Programs that cannot be assembled -/

/-- The second pass is interrupted within lines, in a way that has the property `P`. -/
def Breaks (labels : LabelTable) (a : Nat) (n : Int) (ls : List Line)
    (P : Interruption Assembly.Error → Prop) : Prop :=
  ∀ chunks : Array Chunk, ∃ i, P i ∧
    (listing n ls).foldlM (Emission.addLine labels) ⟨a, chunks⟩ = .error i

section

variable {a b : Nat} {n : Int} {ls : List Line} {P : Interruption Assembly.Error → Prop}

theorem Emits.breaks {ms : List Line} {cs : List Chunk} (h : Emits labels a n ls cs b)
    (h' : Breaks labels b (n + ls.length) ms P) : Breaks labels a n (ls ++ ms) P := by
  intro chunks
  obtain ⟨i, hi, he⟩ := h' (chunks ++ cs.toArray)
  refine ⟨i, hi, ?_⟩
  rw [listing_append, List.foldlM_append, h chunks]
  exact he

theorem Breaks.append (h : Breaks labels a n ls P) (ms : List Line) :
    Breaks labels a n (ls ++ ms) P := by
  intro chunks
  obtain ⟨i, hi, he⟩ := h chunks
  refine ⟨i, hi, ?_⟩
  rw [listing_append, List.foldlM_append, he]
  rfl

end

theorem breaks_head {size : Int64} (hs : Resolved labels setup) (h : 2 ^ 32 ≤ size.toInt) :
    Breaks labels 0 1 (head size) fun i => ∃ e, i = .error e := by
  have hlt := size.toInt_lt
  have hword (l : Assembly.Line) : ∃ e,
      l.word labels (.ofString (Numeral.decimal size.toInt)) = .error e := by
    rw [word_eq, bare_decimal, readSigned_decimal (by omega) hlt]
    exact ⟨_, if_neg (by omega)⟩
  have hcapacity (note : String) (n : Int) (ls : List Line) :
      Breaks labels 24 n (dataWord "capacity" "\t" (Numeral.decimal size.toInt) note :: ls)
        fun i => ∃ e, i = .error e := by
    intro chunks
    obtain ⟨e, he⟩ := hword ((dataWord "capacity" "\t" (Numeral.decimal size.toInt) note).parsed n)
    refine ⟨.error e, ⟨e, rfl⟩, ?_⟩
    have hm : ((dataWord "capacity" "\t" (Numeral.decimal size.toInt) note).parsed n).mnemonic =
      some (Statement.directive .long (Numeral.decimal size.toInt)).name := rfl
    have ho : ((dataWord "capacity" "\t" (Numeral.decimal size.toInt) note).parsed n).operands =
      [.ofString (Numeral.decimal size.toInt)] := rfl
    rw [listing, List.foldlM_cons, Emission.addLine]
    simp only [hm, ofName?_name, ho, he]
    rfl
  rw [head_eq]
  exact (emits_start hs).breaks ((emits_depth _).breaks (hcapacity _ _ _))

/-- Behind the end of the address space there is no way back to the stack region. -/
theorem breaks_stackLines {a : Nat} {n : Int} (h : Reaches a.toUInt32 r.limit.toInt)
    (ha : r.limit.toInt.toNat < a) : Breaks labels a n (stackLines r) fun _ => True := by
  have hpos (n : Int) (ls : List Line) :
      Breaks labels a n (directive .pos ("0x" ++ Numeral.hex r.limit.toInt) :: ls)
        fun _ => True := by
    intro chunks
    have hafter := addressAfter_pos (n := n) h
    have hm : ((directive .pos ("0x" ++ Numeral.hex r.limit.toInt)).parsed n).mnemonic =
      some (Statement.directive .pos ("0x" ++ Numeral.hex r.limit.toInt)).name := rfl
    have hback : r.limit.toInt.toNat.toUInt32.toNat < a := by rwa [toNat_toUInt32 h.2.1]
    refine ⟨.defect .negativePadding, trivial, ?_⟩
    rw [listing, List.foldlM_cons, Emission.addLine]
    simp only [hm, ofName?_name, hafter]
    change (if r.limit.toInt.toNat.toUInt32.toNat < a then _ else _) >>= _ = _
    rw [if_pos hback]
    rfl
  rw [stackLines_eq]
  exact (emits_of_none rfl a n).breaks (hpos _ _)

/-- **A program without a roomy stack region** is not assembled. Unless its code is larger than the
address space, that is an error. -/
theorem assemble_program_error (h : fragments os = .ok fs) (hfits : r.fits = true)
    (hr : ¬ r.Roomy (codeEnd fs)) :
    ∃ i, (assemble (.ofString (program (render fs.flatten) r))).image = .error i ∧
      (codeEnd fs < 2 ^ 32 → ∃ e, i = .error e) := by
  have hnonneg := StackRegion.size_nonneg_of_fits hfits
  rw [assemble_eq h, Assembly.assembleLines]
  by_cases ha : r.Ahead (codeEnd fs).toUInt32
  · rw [locates_code_stackLines h ha]
    by_cases hs : r.size.toInt < 2 ^ 32
    · -- the code ends behind the address space, so the first pass has wrapped around
      have hlimit := StackRegion.toInt_limit hnonneg hs ha.2.1
      have hlt : r.limit.toInt.toNat < codeEnd fs := by
        by_contra hle
        exact hr ⟨hnonneg, ha.2.2.1, by have := ha.1.1; omega⟩
      obtain ⟨i, -, hi⟩ := (emits_program h hnonneg hs).breaks
        ((breaks_stackLines ha.1 hlt).append [.blank]) #[]
      refine ⟨i, by simp only [emit, hi]; rfl, fun hsmall => ?_⟩
      have hreach := ha.1.2.2
      have hcode : (codeEnd fs).toUInt32.toNat = codeEnd fs := Nat.mod_eq_of_lt hsmall
      omega
    · have hbreaks : Breaks (labelsOf fs r) 0 1 (head r.size) _ :=
        breaks_head (resolved_setup h _ _) (Int.not_lt.1 hs)
      obtain ⟨i, he, hi⟩ := ((hbreaks.append fs.flatten).append tailCode).append
        (stackLines r ++ [.blank]) #[]
      exact ⟨i, by simp only [emit, hi]; rfl, fun _ => he⟩
  · obtain ⟨t', e, he⟩ := stops_stackLines ha (address?_stack h).2 (listing _ [.blank])
    rw [listing_append, locates_program h, listing_append, he]
    exact ⟨.error e, rfl, fun _ => ⟨e, rfl⟩⟩

end

end RpnY86.Code
