import RpnY86.Proofs.Code.Assembled
import RpnY86.Proofs.Code.Ending

/-! # Loaded programs

The image of a program in memory is a site (`Layout.site`): code in front of the stack region, the
depth in its cell, the capacity behind it. All parts of the program are placed there, and what
fragments rely on holds (`Layout.ground`). -/

namespace RpnY86.Code

open Assembly (Chunk Contiguous Emission Image LabelTable)
open Y86 (Instruction Machine Memory wordBytes)

variable {os : List Operation} {fs : List (List Line)} {r : StackRegion}

/-! ### The chunks of a program -/

theorem contiguous_startChunks {labels : LabelTable} (h : Resolved labels setup) :
    Contiguous 0 (startChunks labels) 20 := by
  have hpos : Contiguous 0 [⟨0, none, []⟩] 0 := ⟨rfl, rfl⟩
  have halign : Contiguous 17 [⟨17, none, [0, 0, 0]⟩] 20 := ⟨rfl, rfl⟩
  exact hpos.append ((contiguous_codeChunks h 0 6).append halign)

theorem contiguous_dataChunks (size : Int64) : Contiguous 20 (dataChunks size) 40 :=
  ⟨rfl, rfl, rfl, rfl, rfl, rfl⟩

theorem contiguous_programChunks (h : fragments os = .ok fs) (r : StackRegion) :
    Contiguous 0 (programChunks (labelsOf fs r) r.size fs) (codeEnd fs) := by
  have hhead : Contiguous 0 (headChunks (labelsOf fs r) r.size) 56 :=
    (contiguous_startChunks (resolved_setup h _ _)).append
      ((contiguous_dataChunks r.size).append (contiguous_codeChunks (resolved_entry h _ _) 40 18))
  exact (hhead.append (contiguous_codeChunks (resolved_fragments h _ _) 56 28)).append
    (contiguous_codeChunks (resolved_tailCode h _ _) _ _)

theorem contiguous_stackChunks {n : Nat} (h : n ≤ r.limit.toInt.toNat)
    (h' : r.limit.toInt.toNat ≤ r.top.toInt.toNat) :
    Contiguous n (stackChunks r n) r.top.toInt.toNat := by
  refine ⟨rfl, ?_, ?_⟩
  · simp only [List.length_replicate]
    omega
  · simp only [Contiguous, List.length_replicate]
    omega

/-- Code for operations, a stack region that is roomy enough, and the size of a memory that holds
both. -/
structure Layout where
  operations : List Operation
  fragments : List (List Line)
  region : StackRegion
  memorySize : Nat
  fragments_eq : Code.fragments operations = .ok fragments
  roomy : region.Roomy (codeEnd fragments)
  top_le : region.top.toInt.toNat ≤ memorySize

namespace Layout

variable (L : Layout)

/-- The labels of the program. -/
abbrev labels : LabelTable := labelsOf L.fragments L.region

/-- The lowest address of the stack region. -/
def floor : Nat := L.region.limit.toInt.toNat

/-- The address above the stack region. -/
def top : Nat := L.region.top.toInt.toNat

/-- The number of operands that the stack region holds. -/
def capacity : Nat := L.region.size.toInt.toNat

/-- The chunks of the code. -/
def chunks : List Chunk := programChunks L.labels L.region.size L.fragments

/-- The program's lines as they are read. -/
def lines : List Assembly.Line := listing 1 (programLines L.fragments L.region ++ [.blank])

theorem codeEnd_le_floor : codeEnd L.fragments ≤ L.floor := L.roomy.le_limit.1

theorem floor_le_top : L.floor ≤ L.top := by
  have := L.roomy.le_limit.2.1
  unfold floor top
  omega

theorem top_lt : L.top < 2 ^ 32 := by
  have := L.roomy.top_lt
  unfold top
  omega

theorem le_codeEnd : 131 ≤ codeEnd L.fragments := by
  unfold codeEnd
  omega

theorem floor_add_eq_top : L.floor + 4 * L.capacity = L.top := by
  have h1 := L.roomy.toInt_limit
  have h2 := L.roomy.size_nonneg
  have h3 := L.roomy.fits
  unfold floor top capacity
  omega

theorem contiguous_chunks : Contiguous 0 L.chunks (codeEnd L.fragments) :=
  contiguous_programChunks L.fragments_eq L.region

theorem contiguous_image :
    Contiguous 0 (L.chunks ++ stackChunks L.region (codeEnd L.fragments)) L.top :=
  L.contiguous_chunks.append (contiguous_stackChunks L.codeEnd_le_floor L.floor_le_top)

/-- The bytes of the program. -/
def image : Image := programImage L.fragments L.region

theorem bytes_image :
    L.image.bytes =
      (L.chunks ++ stackChunks L.region (codeEnd L.fragments)).flatMap Chunk.bytes := rfl

theorem length_image : L.image.bytes.length = L.top := by
  have := L.contiguous_image.length_bytes
  rw [bytes_image]
  omega

/-- The memory with the program in it. -/
def home : Memory := (Memory.zeros L.memorySize).overlay L.image.bytes

theorem holdsAt_chunk {c : Chunk} (hc : c ∈ L.chunks) (hne : c.bytes ≠ []) :
    L.home.HoldsAt c.start.toUInt32 c.bytes :=
  L.contiguous_image.holdsAt (List.mem_append_left _ hc) hne (Nat.le_of_lt L.top_lt) L.top_le

/-- The instruction `j` stands at address `a`, on behalf of a line. -/
def Holds (a : UInt32) (j : Instruction UInt32) : Prop :=
  ∃ c ∈ L.chunks, c.start.toUInt32 = a ∧ c.bytes = j.encode ∧
    (∃ l ∈ L.lines, c.line = some l.number ∧ l.IsInstruction) ∧
    (c.start + c.bytes.length ≤ 20 ∨ 40 ≤ c.start)

theorem encode_ne_nil (j : Instruction UInt32) : j.encode ≠ [] := by
  cases j <;> exact List.cons_ne_nil _ _

/-- **The site** of the program. -/
def site : Site where
  labels := L.labels
  home := L.home
  code := L.Holds
  zone := { floor := L.floor, top := L.top, cell := some 20 }
  floor_le_top := L.floor_le_top
  top_le_size := L.top_le
  top_le_range := Nat.le_of_lt L.top_lt
  cell_le_size c hc := by
    obtain rfl := Option.some.inj hc
    have h1 := L.codeEnd_le_floor
    have h2 := L.floor_le_top
    have h3 := L.le_codeEnd
    have h4 : L.top ≤ L.home.size := L.top_le
    change 20 + 4 ≤ L.home.size
    omega
  cell_outside c hc := by
    obtain rfl := Option.some.inj hc
    have h1 := L.codeEnd_le_floor
    have h3 := L.le_codeEnd
    left
    change 20 + 4 ≤ L.floor
    omega
  code_holds := by
    rintro a j ⟨c, hc, rfl, hbytes, -, -⟩
    rw [← hbytes]
    exact L.holdsAt_chunk hc (hbytes ▸ encode_ne_nil j)
  code_outside := by
    rintro a j ⟨c, hc, rfl, hbytes, -, hdata⟩ k hk
    have hend := L.contiguous_chunks.start_add_length_le hc
    have hlimit := L.codeEnd_le_floor
    have htop := L.top_lt
    have hle := L.floor_le_top
    rw [hbytes, Instruction.length_encode] at hend hdata
    have hstart : c.start.toUInt32.toNat = c.start := Nat.mod_eq_of_lt (by omega)
    rw [hstart]
    rintro (⟨h1, -⟩ | ⟨a, ha, h1, h2⟩)
    · change L.floor ≤ c.start + k at h1
      omega
    · obtain rfl := Option.some.inj ha
      change 20 ≤ c.start + k at h1
      change c.start + k < 20 + 4 at h2
      omega

/-! ### The parts of the program -/

/-- Code is placed where its chunks are, apart from the data. -/
theorem placed_part {a : Nat} {n : Int} {ls : List Line} (hcode : ∀ l ∈ ls, l.isCode = true)
    (hr : Resolved L.labels ls) (hl : Labelled L.labels a.toUInt32 ls)
    (hchunks : ∀ c ∈ codeChunks L.labels a n ls, c ∈ L.chunks)
    (hlines : ∀ l ∈ listing n ls, l ∈ L.lines) (hdata : a + size ls ≤ 20 ∨ 40 ≤ a) :
    L.site.Placed a.toUInt32 ls := by
  refine placed_of_chunks (n := n) hcode hr hl fun c hc j hj => ?_
  obtain ⟨l, hl, hline⟩ := line_of_mem_codeChunks hc
  have hcontiguous := contiguous_codeChunks hr a n
  have hle := hcontiguous.le_start hc
  have hend := hcontiguous.start_add_length_le hc
  exact ⟨c, hchunks c hc, rfl, hj, ⟨l, hlines l hl, hline⟩, by omega⟩

theorem mem_lines (before : List Line) {ls : List Line} (after : List Line) {n : Int}
    (h : programLines L.fragments L.region ++ [.blank] = before ++ (ls ++ after))
    (hn : n = 1 + before.length) : ∀ l ∈ listing n ls, l ∈ L.lines := by
  intro l hl
  rw [lines, h, listing_append, listing_append, ← hn]
  exact List.mem_append_right _ (List.mem_append_left _ hl)

theorem labelled_head {ls : List Line} {a : UInt32} (hd : (labelNames ls).Nodup)
    (hnames : ∀ name ∈ labelNames ls, name ∈ headTable.map Prod.fst ∧
      headTable.address? name = (located a [] ls).address? name) : Labelled L.labels a ls := by
  refine (labelled_located hd a []).congr fun name hname => ?_
  rw [address?_table L.fragments_eq _ _ (hnames name hname).1, (hnames name hname).2]

theorem placed_setup : L.site.Placed 0 setup := by
  refine L.placed_part (a := 0) (n := 6) (by decide) (resolved_setup L.fragments_eq _ _)
    (L.labelled_head (by decide) (by decide)) (fun c hc => ?_) ?_ (by decide)
  · simp only [chunks, programChunks, headChunks, startChunks, List.mem_append]
    exact .inl (.inl (.inl (.inr (.inl hc))))
  · exact L.mem_lines (preamble ++ [directive .pos "0"]) _ rfl rfl

theorem placed_entry : L.site.Placed 40 entry := by
  refine L.placed_part (a := 40) (n := 18) (by decide) (resolved_entry L.fragments_eq _ _)
    (L.labelled_head (by decide) (by decide)) (fun c hc => ?_) ?_ (by decide)
  · simp only [chunks, programChunks, headChunks, List.mem_append]
    exact .inl (.inl (.inr (.inr hc)))
  · exact L.mem_lines (start ++ dataLines L.region.size) _ rfl rfl

theorem placed_fragments : L.site.Placed 56 L.fragments.flatten := by
  refine L.placed_part (a := 56) (n := 28) (isCode_fragments L.fragments_eq)
    (resolved_fragments L.fragments_eq _ _) (labelled_fragments L.fragments_eq _ _)
    (fun c hc => ?_) ?_ (.inr (by decide))
  · simp only [chunks, programChunks, List.mem_append]
    exact .inl (.inr hc)
  · refine L.mem_lines (head L.region.size) (tail L.region ++ [.blank]) ?_ rfl
    rw [programLines, List.append_assoc, List.append_assoc]

theorem placed_tailCode : L.site.Placed (behind 56 L.fragments.flatten) tailCode := by
  have h56 : (56 : UInt32) = Nat.toUInt32 56 := rfl
  have hlabels := labelled_tailCode L.fragments L.region.limit.toInt.toNat.toUInt32
    L.region.top.toInt.toNat.toUInt32
  rw [h56, behind_toUInt32] at hlabels ⊢
  refine L.placed_part (n := 28 + L.fragments.flatten.length) isCode_tailCode
    (resolved_tailCode L.fragments_eq _ _) hlabels (fun c hc => ?_) ?_ (by omega)
  · simp only [chunks, programChunks, List.mem_append]
    exact .inr hc
  · refine L.mem_lines (head L.region.size ++ L.fragments.flatten)
      (stackLines L.region ++ [.blank]) ?_ ?_
    · simp only [programLines, tail_eq, List.append_assoc]
    · rw [List.length_append, Int.natCast_add, ← Int.add_assoc]
      rfl

/-! ### The source map -/

theorem sourceMap_image :
    L.image.sourceMap = L.chunks.filterMap fun c => c.line.map (c.start.toUInt32, ·) := by
  have hstack : (stackChunks L.region (codeEnd L.fragments)).filterMap
      (fun c => c.line.map (c.start.toUInt32, ·)) = [] := rfl
  have hmap : L.image.sourceMap = (L.chunks ++ stackChunks L.region (codeEnd L.fragments)).filterMap
      fun c => c.line.map (c.start.toUInt32, ·) := rfl
  rw [hmap, List.filterMap_append, hstack, List.append_nil]

theorem mem_sourceMap {c : Chunk} (hc : c ∈ L.chunks) {n : Int} (hn : c.line = some n) :
    (c.start.toUInt32, n) ∈ L.image.sourceMap := by
  rw [sourceMap_image, List.mem_filterMap]
  exact ⟨c, hc, by rw [hn, Option.map_some]⟩

theorem chunks_eq :
    L.chunks = headChunks L.labels L.region.size ++
      codeChunks L.labels 56 28 (L.fragments.flatten ++ tailCode) := by
  rw [codeChunks_append, ← List.append_assoc]
  rfl

theorem line_lt_of_mem_headChunks {c : Chunk} (hc : c ∈ headChunks L.labels L.region.size) {m : Int}
    (hm : c.line = some m) : m < 28 := by
  have hcode {a : Nat} {n : Int} {ls : List Line} (hn : n + ls.length ≤ 28)
      (hc : c ∈ codeChunks L.labels a n ls) : m < 28 := by
    obtain ⟨k, hk, -, hlt⟩ := bounds_of_mem_codeChunks hc
    obtain rfl := Option.some.inj (hk.symm.trans hm)
    omega
  simp only [headChunks, startChunks, List.mem_append, List.mem_singleton] at hc
  rcases hc with (rfl | hc | rfl) | hc | hc
  · exact nomatch hm
  · exact hcode (by decide) hc
  · exact nomatch hm
  · simp only [dataChunks, List.mem_cons, List.not_mem_nil, or_false] at hc
    rcases hc with rfl | rfl | rfl | rfl | rfl
    all_goals
      obtain rfl := Option.some.inj hm
      decide
  · exact hcode (by decide) hc

/-- Chunks from earlier lines do not count. -/
theorem find?_earlier {cs : List Chunk} {n : Int} (h : ∀ c ∈ cs, ∀ m, c.line = some m → m < n) :
    (cs.filterMap fun c => c.line.map (c.start.toUInt32, ·)).find? (fun e => decide (n ≤ e.2)) =
      none := by
  rw [List.find?_eq_none]
  intro e he
  obtain ⟨c, hc, hce⟩ := List.mem_filterMap.1 he
  obtain ⟨m, hm, rfl⟩ := Option.map_eq_some_iff.1 hce
  have := h c hc m hm
  simp only [decide_eq_true_eq]
  omega

/-- **The address behind fragments** is that of the first line behind them. -/
theorem addressFrom?_image {before after : List (List Line)} (h : L.fragments = before ++ after) :
    L.image.addressFrom? (28 + before.flatten.length) = some (behind 56 before.flatten) := by
  have hchunks : L.chunks = (headChunks L.labels L.region.size ++
      codeChunks L.labels 56 28 before.flatten) ++ codeChunks L.labels (56 + size before.flatten)
        (28 + before.flatten.length) (after.flatten ++ tailCode) := by
    rw [chunks_eq, h, List.flatten_append, List.append_assoc, codeChunks_append, List.append_assoc]
  have hearlier : ∀ c ∈ headChunks L.labels L.region.size ++
      codeChunks L.labels 56 28 before.flatten, ∀ m, c.line = some m →
        m < 28 + before.flatten.length := by
    intro c hc m hm
    rcases List.mem_append.1 hc with hc | hc
    · have := L.line_lt_of_mem_headChunks hc hm
      omega
    · obtain ⟨m', hm', -, hlt⟩ := bounds_of_mem_codeChunks hc
      obtain rfl := Option.some.inj (hm'.symm.trans hm)
      exact hlt
  obtain ⟨c, cs, hcs⟩ : ∃ c cs, codeChunks L.labels (56 + size before.flatten)
      (28 + before.flatten.length) (after.flatten ++ tailCode) = c :: cs := by
    rw [codeChunks_append]
    cases codeChunks L.labels (56 + size before.flatten) (28 + before.flatten.length)
      after.flatten with
    | nil => exact ⟨_, _, rfl⟩
    | cons c cs => exact ⟨c, _, rfl⟩
  have hmem : c ∈ codeChunks L.labels (56 + size before.flatten) (28 + before.flatten.length)
      (after.flatten ++ tailCode) := by
    rw [hcs]
    exact List.mem_cons_self ..
  obtain ⟨m, hm, hle, -⟩ := bounds_of_mem_codeChunks hmem
  have hstart := start_of_codeChunks hcs
  have h56 : (56 : UInt32) = Nat.toUInt32 56 := rfl
  rw [Assembly.Image.addressFrom?, sourceMap_image, hchunks, List.filterMap_append,
    List.find?_append, find?_earlier hearlier, Option.none_or, hcs, List.filterMap_cons, hm]
  simp only [Option.map_some]
  rw [List.find?_cons_of_pos (by simpa using hle), Option.map_some, hstart, h56, behind_toUInt32]

/-- **The last code** is a `halt`, right in front of the end. -/
theorem last_sourceMap :
    ∃ l ∈ L.lines, l.mnemonic.bind Assembly.Keyword.ofName? = some (.instruction .halt) ∧
      L.image.sourceMap.getLast? = some ((codeEnd L.fragments - 1).toUInt32, l.number) := by
  obtain ⟨ls, hls⟩ : ∃ ls, L.fragments.flatten ++ tailCode.dropLast.dropLast = ls := ⟨_, rfl⟩
  have hcode : L.fragments.flatten ++ tailCode = ls ++ [.op .halt, .blank] := by
    rw [← hls, List.append_assoc]
    rfl
  have hend : 56 + size ls = codeEnd L.fragments - 1 := by
    have hsize : size tailCode.dropLast.dropLast = 74 := rfl
    rw [← hls, size_append, hsize, codeEnd]
    omega
  have hlast : codeChunks L.labels (56 + size ls) (28 + ls.length) [.op .halt, .blank] =
      [⟨56 + size ls, some (28 + ls.length), Instruction.halt.encode⟩] := rfl
  refine ⟨(Line.op .halt).parsed (28 + ls.length), ?_, ofName?_name (.instruction .halt), ?_⟩
  · have hlines : programLines L.fragments L.region ++ [.blank] =
        (head L.region.size ++ ls) ++
          ([.op .halt] ++ (.blank :: (stackLines L.region ++ [.blank]))) := by
      have hprogram : programLines L.fragments L.region =
          head L.region.size ++ (L.fragments.flatten ++ tailCode) ++ stackLines L.region := by
        simp only [programLines, tail_eq, List.append_assoc]
      rw [hprogram, hcode]
      simp
    have hn : (28 : Int) + ls.length = 1 + (head L.region.size ++ ls).length := by
      rw [List.length_append, Int.natCast_add, ← Int.add_assoc]
      rfl
    exact L.mem_lines _ _ hlines hn _ (List.mem_cons_self ..)
  · rw [sourceMap_image, chunks_eq, hcode, codeChunks_append, hlast, ← List.append_assoc,
      List.filterMap_append, List.getLast?_append, hend]
    rfl

/-! ### The data -/

theorem wordAt_home {n : Nat} {l : Option Int} {v : UInt32}
    (h : ⟨n, l, wordBytes v⟩ ∈ dataChunks L.region.size) : L.home.wordAt n = v := by
  have hmem : ⟨n, l, wordBytes v⟩ ∈ L.chunks := by
    simp only [chunks, programChunks, headChunks, List.mem_append]
    exact .inl (.inl (.inr (.inl h)))
  have hend : n + 4 ≤ 40 := (contiguous_dataChunks L.region.size).start_add_length_le h
  have hstart : n.toUInt32.toNat = n := Nat.mod_eq_of_lt (by omega)
  have hholds : L.home.HoldsAt n.toUInt32 (wordBytes v) :=
    L.holdsAt_chunk hmem (List.cons_ne_nil _ _)
  have hword : L.home.word? (n.toUInt32 + 0) = some v := hholds.word? []
  rw [UInt32.add_zero, Memory.word?, if_pos ((Memory.hasWord_iff _ _).2 hholds.inMemory),
    hstart] at hword
  exact Option.some.inj hword

theorem not_covers {n : Nat} (h : n < 20 ∨ 24 ≤ n ∧ n < L.floor) : ¬ L.site.zone.Covers n := by
  rintro (⟨h1, -⟩ | ⟨c, hc, h1, h2⟩)
  · change L.floor ≤ n at h1
    have h3 := L.codeEnd_le_floor
    have h4 := L.le_codeEnd
    omega
  · obtain rfl := Option.some.inj hc
    change 20 ≤ n at h1
    change n < 20 + 4 at h2
    omega

theorem hasCapacity : L.site.HasCapacity 20 (UInt32.ofNat L.capacity) where
  cell := rfl
  inMemory := by
    have h1 := L.codeEnd_le_floor
    have h2 := L.le_codeEnd
    have h3 := L.site.top_le_size
    have h4 := L.floor_le_top
    change L.top ≤ L.site.home.size at h3
    change 24 + 4 ≤ L.site.home.size
    omega
  outside k hk := L.not_covers (by
    have h3 := L.codeEnd_le_floor
    have h4 := L.le_codeEnd
    change 24 + k < 20 ∨ 24 ≤ 24 + k ∧ 24 + k < L.floor
    omega)
  value := by
    have hsize := L.roomy.size_nonneg
    have hcapacity : L.region.size.toInt = (L.capacity : Int) := (Int.toNat_of_nonneg hsize).symm
    have hword : L.home.wordAt 24 = UInt32.ofInt L.region.size.toInt :=
      L.wordAt_home (l := some 13) (by simp [dataChunks])
    rw [hcapacity, Y86.ofInt_natCast] at hword
    exact hword

/-! ### Handlers -/

/-- The address of a fault's handler. -/
def handler (f : ProgramFault) : UInt32 := (L.labels.address? (faultLabel f)).getD 0

theorem address?_faultLabel (f : ProgramFault) :
    L.labels.address? (faultLabel f) = some (L.handler f) := by
  have hmem : faultLabel f ∈ labelNames tailCode := by cases f <;> decide
  obtain ⟨a, ha⟩ := Option.isSome_iff_exists.1 ((labelled_tailCode L.fragments
    L.region.limit.toInt.toNat.toUInt32 L.region.top.toInt.toNat.toUInt32).isSome hmem)
  rw [handler, ha, Option.getD_some]

/-- **What the fragments rely on.** -/
theorem ground : L.site.Ground 20 L.capacity L.handler where
  data := L.hasCapacity
  room := by
    have := L.floor_add_eq_top
    change L.top - L.floor = 4 * L.capacity
    omega
  handlers := L.address?_faultLabel

/-- A handler that takes its code from the data. -/
theorem leads_placed_handler {a b : UInt32} {f : ProgramFault} {cell : String}
    {explanation : List String} {n : Nat} {l : Option Int} {st : OperandStack}
    (hh : L.site.Placed a (Code.handler f cell explanation)) (he : L.site.Placed b faultExit)
    (hcell : cell ∈ headTable.map Prod.fst) (hn : headTable.address? cell = some n.toUInt32)
    (hdata : ⟨n, l, wordBytes f.code⟩ ∈ dataChunks L.region.size) (h24 : 24 ≤ n) :
    L.site.Leads 5 (Site.Between (L.handler f) 20 st) (L.site.FaultedAt (b + 6 + 2 + 6) f st) := by
  have hlabel : L.labels.address? (faultLabel f) = some a := by
    simp [Code.handler, Site.placed_append, behind_map_heading] at hh
    exact hh.2.1
  obtain rfl := Option.some.inj (L.address?_faultLabel f |>.symm.trans hlabel)
  have hend : n + 4 ≤ 40 := (contiguous_dataChunks L.region.size).start_add_length_le hdata
  have hstart : n.toUInt32.toNat = n := Nat.mod_eq_of_lt (by omega)
  have h1 := L.codeEnd_le_floor
  have h2 := L.le_codeEnd
  have h3 := L.site.top_le_size
  have h4 := L.floor_le_top
  refine Site.leads_handler hh he ((address?_table L.fragments_eq _ _ hcell).trans hn) ?_ ?_ ?_
  · change L.top ≤ L.site.home.size at h3
    omega
  · intro k hk
    rw [hstart]
    exact L.not_covers (by omega)
  · rw [hstart]
    exact L.wordAt_home hdata

/-- **Every fault** leads to its code. -/
theorem exists_leads_fault (f : ProgramFault) (st : OperandStack) :
    ∃ pc, L.site.Leads 5 (Site.Between (L.handler f) 20 st) (L.site.FaultedAt pc f st) := by
  have h := L.placed_tailCode
  unfold tailCode at h
  simp only [Site.placed_append] at h
  obtain ⟨⟨⟨⟨-, hdiv⟩, hstack⟩, hfull⟩, hexit⟩ := h
  cases f with
  | divideByZero =>
    exact ⟨_, L.leads_placed_handler (n := 28) (l := some 15) hdiv hexit (by decide) rfl
      (by simp [dataChunks, ProgramFault.code]) (by decide)⟩
  | stackError =>
    exact ⟨_, L.leads_placed_handler (n := 32) (l := some 16) hstack hexit (by decide) rfl
      (by simp [dataChunks, ProgramFault.code]) (by decide)⟩
  | stackTooFull =>
    exact ⟨_, L.leads_placed_handler (n := 36) (l := some 17) hfull hexit (by decide) rfl
      (by simp [dataChunks, ProgramFault.code]) (by decide)⟩

theorem placed_footer : L.site.Placed (behind 56 L.fragments.flatten) footer := by
  have h := L.placed_tailCode
  unfold tailCode at h
  simp only [Site.placed_append] at h
  exact h.1.1.1.1

end Layout

end RpnY86.Code
