import RpnY86.Proofs.Assembly.Chunks
import RpnY86.Proofs.Code.Operands

/-! # The two passes over generated lines

`Locates a t n ls b t'`: the first pass gets over the lines `ls`, numbered from `n` on, from address
`a` with labels `t` to address `b` with labels `t'`. `Emits labels a n ls cs b`: the second pass
gets over them from length `a` to length `b` and adds the chunks `cs`. Both compose along lists of
lines, and for lines without directives both are known (`locates_code`, `emits_code`). -/

namespace RpnY86.Code

open Assembly (Chunk Contiguous Emission LabelTable locate)
open Y86 (Instruction)

variable {labels t t' : LabelTable} {n : Int} {ls ms : List Line} {l : Line}

/-! ### Lines without directives -/

/-- The bytes that a line takes if it is no directive. -/
def Line.size (l : Line) : Nat :=
  match l.statement with
  | some (.instruction i) => i.length
  | _ => 0

/-- The bytes that lines without directives take. -/
def size (ls : List Line) : Nat := (ls.map Line.size).sum

theorem size_cons (l : Line) (ls : List Line) : size (l :: ls) = l.size + size ls := by
  simp [size]

@[simp] theorem size_append (ls ms : List Line) : size (ls ++ ms) = size ls + size ms := by
  simp [size]

section

variable (ls : List Line) (text : String) (i : Instruction Ref)

@[simp] theorem size_nil : size [] = 0 := rfl

@[simp] theorem size_blank : size (.blank :: ls) = size ls := by
  rw [size_cons, Line.size, Line.blank, Nat.zero_add]

@[simp] theorem size_comment : size (.comment text :: ls) = size ls := by
  rw [size_cons, Line.size, Line.comment, Nat.zero_add]

@[simp] theorem size_heading : size (.heading text :: ls) = size ls := by
  rw [size_cons, Line.size, Line.heading, Nat.zero_add]

@[simp] theorem size_mark : size (.mark text :: ls) = size ls := by
  rw [size_cons, Line.size, Line.mark, Nat.zero_add]

@[simp] theorem size_noted : size (.noted i text :: ls) = i.length + size ls := size_cons _ _

@[simp] theorem size_op : size (.op i :: ls) = i.length + size ls := size_cons _ _

end

/-- Whether a line has no directive. -/
def Line.isCode (l : Line) : Bool :=
  match l.statement with
  | some (.directive _ _) => false
  | _ => true

theorem statement_ne_of_isCode (h : l.isCode = true) (d : Assembly.Directive) (operand : String) :
    l.statement ≠ some (.directive d operand) := by
  intro hs
  rw [Line.isCode, hs] at h
  exact nomatch h

theorem next_toUInt32 (a : Nat) (l : Line) : l.next a.toUInt32 = (a + l.size).toUInt32 := by
  unfold Line.next Line.size
  cases l.statement with
  | none => rfl
  | some s =>
    cases s with
    | instruction i => exact (UInt32.ofNat_add ..).symm
    | directive d operand => rfl

theorem behind_toUInt32 (a : Nat) (ls : List Line) :
    behind a.toUInt32 ls = (a + size ls).toUInt32 := by
  induction ls generalizing a with
  | nil => rfl
  | cons l ls ih =>
    change behind (l.next a.toUInt32) ls = _
    rw [next_toUInt32, ih, size_cons, Nat.add_assoc]

theorem behind_eq_add (a : UInt32) (ls : List Line) :
    behind a ls = a + UInt32.ofNat (size ls) := by
  have h := behind_toUInt32 a.toNat ls
  have ha : a.toNat.toUInt32 = a := UInt32.ofNat_toNat
  rw [ha] at h
  rw [h, Nat.toUInt32, UInt32.ofNat_add, UInt32.ofNat_toNat]

/-! ### The first pass -/

/-- The first pass gets over lines. -/
def Locates (a : UInt32) (t : LabelTable) (n : Int) (ls : List Line) (b : UInt32)
    (t' : LabelTable) : Prop :=
  ∀ rest, locate a t (listing n ls ++ rest) = locate b t' rest

theorem Locates.append {a b c : UInt32} {u : LabelTable} (h : Locates a t n ls b t')
    (h' : Locates b t' (n + ls.length) ms c u) : Locates a t n (ls ++ ms) c u := by
  intro rest
  rw [listing_append, List.append_assoc, h, h']

/-- The table with the label of a line. -/
def Line.define (l : Line) (a : UInt32) (t : LabelTable) : LabelTable :=
  match l.label with
  | some name => (name, a) :: t
  | none => t

theorem define_label (a : UInt32) (hl : ∀ name ∈ l.label, t.address? name = none) :
    LabelTable.define a t l.label.toList = (l.define a t, none) := by
  unfold Line.define
  cases hname : l.label with
  | none => rfl
  | some name =>
    simp only [Option.toList_some, LabelTable.define, hl name hname, Option.isSome_none,
      Bool.false_eq_true, if_false]

theorem locates_singleton {a b : UInt32} (hl : ∀ name ∈ l.label, t.address? name = none)
    (ha : (l.parsed n).addressAfter a = .ok b) : Locates a t n [l] b (l.define a t) := by
  intro rest
  have hdef : LabelTable.define a t (l.parsed n).labels = (l.define a t, none) := define_label a hl
  change locate a t (l.parsed n :: rest) = _
  simp only [locate, hdef, ha]

/-- The first pass stops within lines. -/
def Stops (a : UInt32) (t : LabelTable) (n : Int) (ls : List Line) : Prop :=
  ∀ rest, ∃ t' e, locate a t (listing n ls ++ rest) = (t', some e)

theorem Locates.stops {a b : UInt32} (h : Locates a t n ls b t')
    (h' : Stops b t' (n + ls.length) ms) : Stops a t n (ls ++ ms) := by
  intro rest
  rw [listing_append, List.append_assoc, h]
  exact h' rest

theorem stops_of_error {a : UInt32} (hl : ∀ name ∈ l.label, t.address? name = none)
    (he : ∃ e, (l.parsed n).addressAfter a = .error e) (ls : List Line) :
    Stops a t n (l :: ls) := by
  intro rest
  obtain ⟨e, he⟩ := he
  have hdef : LabelTable.define a t (l.parsed n).labels = (l.define a t, none) := define_label a hl
  exact ⟨l.define a t, e, by simp only [listing, List.cons_append, locate, hdef, he]⟩

theorem addressAfter_code (h : l.isCode = true) (a : UInt32) (n : Int) :
    (l.parsed n).addressAfter a = .ok (l.next a) := by
  unfold Assembly.Line.addressAfter Line.parsed Line.next
  cases hs : l.statement with
  | none => rfl
  | some s =>
    cases s with
    | directive d operand => exact absurd hs (statement_ne_of_isCode h d operand)
    | instruction i =>
      simp only [Option.map_some, ofName?_name, Instruction.length_mnemonic]

/-- The labels of lines. -/
def labelNames (ls : List Line) : List String := ls.filterMap Line.label

theorem labelNames_append (ls ms : List Line) :
    labelNames (ls ++ ms) = labelNames ls ++ labelNames ms := List.filterMap_append

/-- The table with the labels of lines without directives, which start at `a`. -/
def located (a : UInt32) (t : LabelTable) : List Line → LabelTable
  | [] => t
  | l :: ls => located (l.next a) (l.define a t) ls

theorem address?_cons (name name' : String) (a : UInt32) (t : LabelTable) :
    LabelTable.address? ((name, a) :: t) name' =
      if name' = name then some a else t.address? name' := by
  unfold LabelTable.address?
  rw [List.lookup_cons]
  by_cases h : name' = name
  · rw [if_pos h, beq_iff_eq.2 h]
  · rw [if_neg h, beq_false_of_ne h]

theorem address?_define {a : UInt32} {name : String} (h : ∀ name' ∈ l.label, name' ≠ name) :
    (l.define a t).address? name = t.address? name := by
  unfold Line.define
  cases hl : l.label with
  | none => rfl
  | some name' => exact (address?_cons ..).trans (if_neg (h name' hl).symm)

theorem labelNames_cons (l : Line) (ls : List Line) :
    labelNames (l :: ls) = l.label.toList ++ labelNames ls := by
  unfold labelNames
  cases h : l.label with
  | none => rw [List.filterMap_cons_none h]; rfl
  | some name => rw [List.filterMap_cons_some h]; rfl

/-- **The first pass** gets over lines without directives whose labels are new. -/
theorem locates_code (hc : ∀ l ∈ ls, l.isCode = true) (hd : (labelNames ls).Nodup)
    (ht : ∀ name ∈ labelNames ls, t.address? name = none) (a : UInt32) (n : Int) :
    Locates a t n ls (behind a ls) (located a t ls) := by
  induction ls generalizing a t n with
  | nil => exact fun rest => rfl
  | cons l ls ih =>
    rw [labelNames_cons, List.nodup_append] at hd
    rw [labelNames_cons] at ht
    have hfirst : Locates a t n [l] (l.next a) (l.define a t) := by
      refine locates_singleton (fun name hname => ht name ?_)
        (addressAfter_code (hc l (List.mem_cons_self ..)) a n)
      exact List.mem_append_left _ (Option.mem_toList.2 hname)
    have hnew (name : String) (hname : name ∈ labelNames ls) :
        (l.define a t).address? name = none := by
      rw [address?_define fun name' hname' => hd.2.2 name' (Option.mem_toList.2 hname') name hname]
      exact ht name (List.mem_append_right _ hname)
    exact hfirst.append (ih (fun m hm => hc m (List.mem_cons_of_mem l hm)) hd.2.1 hnew _ _)

theorem address?_located {name : String} (h : name ∉ labelNames ls) (a : UInt32)
    (t : LabelTable) : (located a t ls).address? name = t.address? name := by
  induction ls generalizing a t with
  | nil => rfl
  | cons l ls ih =>
    rw [labelNames_cons, List.mem_append, not_or] at h
    rw [located, ih h.2, address?_define]
    rintro name' hname' rfl
    exact h.1 (Option.mem_toList.2 hname')

/-- The labels of lines without directives, which start at `a`, have their addresses. -/
def Labelled (labels : LabelTable) : UInt32 → List Line → Prop
  | _, [] => True
  | a, l :: ls => (∀ name ∈ l.label, labels.address? name = some a) ∧ Labelled labels (l.next a) ls

theorem Labelled.congr {a : UInt32} (h : Labelled t a ls)
    (hl : ∀ name ∈ labelNames ls, labels.address? name = t.address? name) :
    Labelled labels a ls := by
  induction ls generalizing a with
  | nil => exact trivial
  | cons l ls ih =>
    rw [labelNames_cons] at hl
    refine ⟨fun name hname => ?_, ih h.2 fun name hname => hl name (List.mem_append_right _ hname)⟩
    rw [hl name (List.mem_append_left _ (Option.mem_toList.2 hname)), h.1 name hname]

theorem Labelled.isSome {a : UInt32} (h : Labelled labels a ls) {name : String}
    (hname : name ∈ labelNames ls) : (labels.address? name).isSome := by
  induction ls generalizing a with
  | nil => exact absurd hname List.not_mem_nil
  | cons l ls ih =>
    rw [labelNames_cons] at hname
    rcases List.mem_append.1 hname with hname | hname
    · rw [h.1 name (Option.mem_toList.1 hname)]
      rfl
    · exact ih h.2 hname

theorem labelled_located (hd : (labelNames ls).Nodup) (a : UInt32) (t : LabelTable) :
    Labelled (located a t ls) a ls := by
  induction ls generalizing a t with
  | nil => exact trivial
  | cons l ls ih =>
    rw [labelNames_cons, List.nodup_append] at hd
    refine ⟨fun name hname => ?_, ih hd.2.1 _ _⟩
    have hnew : name ∉ labelNames ls := fun h =>
      hd.2.2 name (Option.mem_toList.2 hname) name h rfl
    rw [located, address?_located hnew, Line.define, Option.mem_def.1 hname]
    exact (address?_cons ..).trans (if_pos rfl)

/-! ### The second pass -/

/-- The second pass gets over lines. -/
def Emits (labels : LabelTable) (a : Nat) (n : Int) (ls : List Line) (cs : List Chunk) (b : Nat) :
    Prop :=
  ∀ chunks : Array Chunk, (listing n ls).foldlM (Emission.addLine labels) ⟨a, chunks⟩ =
    .ok ⟨b, chunks ++ cs.toArray⟩

theorem Emits.append {a b c : Nat} {cs ds : List Chunk} (h : Emits labels a n ls cs b)
    (h' : Emits labels b (n + ls.length) ms ds c) : Emits labels a n (ls ++ ms) (cs ++ ds) c := by
  intro chunks
  rw [listing_append, List.foldlM_append, h chunks]
  refine (h' _).trans ?_
  simp

/-- The chunks of lines without directives, which start at `a`. -/
def codeChunks (labels : LabelTable) : (a : Nat) → (n : Int) → List Line → List Chunk
  | _, _, [] => []
  | a, n, l :: ls =>
    match l.statement with
    | some (.instruction i) =>
      { start := a, line := some n, bytes := (resolve? labels i).elim [] Instruction.encode } ::
        codeChunks labels (a + i.length) (n + 1) ls
    | _ => codeChunks labels a (n + 1) ls

/-- All constants of lines are known. -/
def Resolved (labels : LabelTable) (ls : List Line) : Prop :=
  ∀ l ∈ ls, ∀ i, l.statement = some (.instruction i) → (resolve? labels i).isSome

theorem addLine_none (hs : l.statement = none) (n : Int) (e : Emission) :
    e.addLine labels (l.parsed n) = .ok e := by
  simp only [Emission.addLine, Line.parsed, hs]
  rfl

theorem emits_of_none (hs : l.statement = none) (a : Nat) (n : Int) :
    Emits labels a n [l] [] a := by
  intro chunks
  rw [listing, List.foldlM_cons, addLine_none hs, Array.append_empty]
  rfl

theorem addLine_instruction (h : l.Legible) {i : Instruction Ref} {j : Instruction UInt32}
    (hs : l.statement = some (.instruction i)) (hj : resolve? labels i = some j) (n : Int)
    (e : Emission) : e.addLine labels (l.parsed n) = .ok (e.add (some n) j.encode) := by
  have hi : (l.parsed n).instruction labels i.mnemonic = .ok j := by
    refine instruction_parsed (h.statement _ hs) ?_ hj
    simp only [Line.parsed, hs]
    rfl
  have hm : (l.parsed n).mnemonic = some (Statement.instruction i).name := by
    simp only [Line.parsed, hs]
    rfl
  unfold Emission.addLine
  simp only [hm, ofName?_name, hi]
  rfl

theorem length_of_resolve? {i : Instruction Ref} {j : Instruction UInt32}
    (h : resolve? labels i = some j) : j.length = i.length := by
  cases i with
  | constant | store | load | jump | call =>
    obtain ⟨v, -, rfl⟩ := Option.map_eq_some_iff.1 h
    rfl
  | _ =>
    obtain rfl := Option.some.inj h
    rfl

/-- **The second pass** gets over lines without directives whose constants are known. -/
theorem emits_code (hl : ∀ l ∈ ls, l.Legible) (hc : ∀ l ∈ ls, l.isCode = true)
    (hr : Resolved labels ls) (a : Nat) (n : Int) :
    Emits labels a n ls (codeChunks labels a n ls) (a + size ls) := by
  induction ls generalizing a n with
  | nil =>
    intro chunks
    rw [codeChunks, Array.append_empty]
    rfl
  | cons l ls ih =>
    have hl' := hl l (List.mem_cons_self ..)
    have ih := ih (fun m hm => hl m (List.mem_cons_of_mem l hm))
      (fun m hm => hc m (List.mem_cons_of_mem l hm)) fun m hm => hr m (List.mem_cons_of_mem l hm)
    intro chunks
    rw [listing, List.foldlM_cons]
    cases hs : l.statement with
    | none =>
      have hsize : a + size (l :: ls) = a + size ls := by
        rw [size_cons, Line.size, hs, Nat.zero_add]
      rw [addLine_none hs, codeChunks, hs, hsize]
      exact ih a (n + 1) chunks
    | some s =>
      cases s with
      | directive d operand =>
        exact absurd hs (statement_ne_of_isCode (hc l (List.mem_cons_self ..)) d operand)
      | instruction i =>
        obtain ⟨j, hj⟩ := Option.isSome_iff_exists.1 (hr l (List.mem_cons_self ..) i hs)
        have hsize : a + size (l :: ls) = a + i.length + size ls := by
          rw [size_cons, Line.size, hs, Nat.add_assoc]
        have hadd : Emission.add ⟨a, chunks⟩ (some n) j.encode =
            ⟨a + i.length, chunks.push ⟨a, some n, j.encode⟩⟩ := by
          rw [Emission.add, Instruction.length_encode, length_of_resolve? hj]
        rw [addLine_instruction hl' hs hj, hadd, codeChunks, hs, hsize]
        refine (ih (a + i.length) (n + 1) _).trans ?_
        simp only [hj, Option.elim_some]
        congr 2
        simp

theorem contiguous_codeChunks (hr : Resolved labels ls) (a : Nat) (n : Int) :
    Contiguous a (codeChunks labels a n ls) (a + size ls) := by
  induction ls generalizing a n with
  | nil => rfl
  | cons l ls ih =>
    have ih := ih fun m hm => hr m (List.mem_cons_of_mem l hm)
    rw [size_cons]
    unfold codeChunks Line.size
    cases hs : l.statement with
    | none =>
      rw [Nat.zero_add]
      exact ih a (n + 1)
    | some s =>
      cases s with
      | directive d operand =>
        rw [Nat.zero_add]
        exact ih a (n + 1)
      | instruction i =>
        obtain ⟨j, hj⟩ := Option.isSome_iff_exists.1 (hr l (List.mem_cons_self ..) i hs)
        have hlen : ((resolve? labels i).elim [] Instruction.encode).length = i.length := by
          rw [hj, Option.elim_some, Instruction.length_encode, length_of_resolve? hj]
        refine ⟨rfl, ?_⟩
        simp only [hlen, ← Nat.add_assoc]
        exact ih (a + i.length) (n + 1)

theorem codeChunks_cons (labels : LabelTable) (a : Nat) (n : Int) (l : Line) (ls : List Line) :
    codeChunks labels a n (l :: ls) =
      codeChunks labels a n [l] ++ codeChunks labels (a + l.size) (n + 1) ls := by
  simp only [codeChunks, Line.size]
  split <;> rfl

theorem codeChunks_append (labels : LabelTable) (a : Nat) (n : Int) (ls ms : List Line) :
    codeChunks labels a n (ls ++ ms) =
      codeChunks labels a n ls ++ codeChunks labels (a + size ls) (n + ls.length) ms := by
  induction ls generalizing a n with
  | nil => simp [codeChunks]
  | cons l ls ih =>
    have hn : n + ((l :: ls).length : Nat) = n + 1 + (ls.length : Nat) := by
      rw [List.length_cons]
      omega
    rw [List.cons_append, codeChunks_cons, ih, codeChunks_cons labels a n l ls, size_cons, hn,
      ← Nat.add_assoc, List.append_assoc]

theorem number_of_mem_listing {l' : Assembly.Line} (h : l' ∈ listing n ls) :
    n ≤ l'.number ∧ l'.number < n + ls.length := by
  induction ls generalizing n with
  | nil => exact absurd h List.not_mem_nil
  | cons l ls ih =>
    rw [List.length_cons]
    rcases List.mem_cons.1 h with rfl | h
    · change n ≤ n ∧ n < n + (ls.length + 1 : Nat)
      omega
    · have := ih h
      omega

theorem line_of_mem_codeChunks {a : Nat} {c : Chunk} (h : c ∈ codeChunks labels a n ls) :
    ∃ l ∈ listing n ls, c.line = some l.number ∧ l.IsInstruction := by
  induction ls generalizing a n with
  | nil => exact absurd h List.not_mem_nil
  | cons l ls ih =>
    have hrest {b : Nat} (h : c ∈ codeChunks labels b (n + 1) ls) :
        ∃ l' ∈ listing n (l :: ls), c.line = some l'.number ∧ l'.IsInstruction := by
      obtain ⟨l', hl', h'⟩ := ih h
      exact ⟨l', List.mem_cons_of_mem _ hl', h'⟩
    unfold codeChunks at h
    cases hs : l.statement with
    | none =>
      rw [hs] at h
      exact hrest h
    | some s =>
      rw [hs] at h
      cases s with
      | directive d operand => exact hrest h
      | instruction i =>
        rcases List.mem_cons.1 h with rfl | h
        · refine ⟨l.parsed n, List.mem_cons_self .., rfl, i.mnemonic, ?_⟩
          rw [Line.parsed, hs]
          exact ofName?_name (.instruction i)
        · exact hrest h

theorem bounds_of_mem_codeChunks {a : Nat} {c : Chunk} (h : c ∈ codeChunks labels a n ls) :
    ∃ m, c.line = some m ∧ n ≤ m ∧ m < n + ls.length := by
  obtain ⟨l', hl, hline, -⟩ := line_of_mem_codeChunks h
  exact ⟨l'.number, hline, number_of_mem_listing hl⟩

theorem start_of_codeChunks {a : Nat} {c : Chunk} {cs : List Chunk}
    (h : codeChunks labels a n ls = c :: cs) : c.start = a := by
  induction ls generalizing n with
  | nil => exact nomatch h
  | cons l ls ih =>
    unfold codeChunks at h
    split at h
    · rw [← (List.cons.inj h).1]
    · exact ih h

/-- **Placed code.** Lines without directives are placed where their labels and their chunks are. -/
theorem placed_of_chunks {S : Site} {a : Nat} (hc : ∀ l ∈ ls, l.isCode = true)
    (hr : Resolved S.labels ls) (hl : Labelled S.labels a.toUInt32 ls)
    (hs : ∀ c ∈ codeChunks S.labels a n ls, ∀ j : Instruction UInt32, c.bytes = j.encode →
      S.code c.start.toUInt32 j) : S.Placed a.toUInt32 ls := by
  induction ls generalizing a n with
  | nil => exact trivial
  | cons l ls ih =>
    have hnext := next_toUInt32 a l
    obtain ⟨hl1, hl2⟩ := hl
    refine ⟨hl1, ?_, ?_⟩
    · cases hst : l.statement with
      | none => exact trivial
      | some s =>
        cases s with
        | directive d operand =>
          exact absurd hst (statement_ne_of_isCode (hc l (List.mem_cons_self ..)) d operand)
        | instruction i =>
          obtain ⟨j, hj⟩ := Option.isSome_iff_exists.1 (hr l (List.mem_cons_self ..) i hst)
          refine ⟨j, hj, hs ⟨a, some n, j.encode⟩ ?_ j rfl⟩
          unfold codeChunks
          simp only [hst, hj, Option.elim_some]
          exact List.mem_cons_self ..
    · rw [hnext] at hl2 ⊢
      refine ih (n := n + 1) (fun m hm => hc m (List.mem_cons_of_mem l hm))
        (fun m hm => hr m (List.mem_cons_of_mem l hm)) hl2 fun c hcs => hs c ?_
      unfold codeChunks
      unfold Line.size at hcs
      cases hst : l.statement with
      | none =>
        rw [hst] at hcs
        exact hcs
      | some s =>
        rw [hst] at hcs
        cases s with
        | directive d operand => exact hcs
        | instruction i => exact List.mem_cons_of_mem _ hcs

end RpnY86.Code
