import RpnY86.Proofs.Code.Labels
import RpnY86.Proofs.Code.Spelling

/-! # The layout of programs

Where the parts of a program lie: the setup from address 0, the data from 20, the entry from 40, the
fragments from 56, and behind them the tail. -/

namespace RpnY86.Code

open Assembly (Chunk Contiguous Emission LabelTable bare locate word_eq)
open Y86 (Instruction wordBytes)

/-! ### Parts of a program -/

/-- The headings in front of everything. -/
def preamble : List Line := (head 0).take 4

/-- The first instructions. -/
def setup : List Line := ((head 0).drop 5).take 5

/-- The lines in front of the data. -/
def start : List Line := preamble ++ ([directive .pos "0"] ++ (setup ++ [directive .align "4"]))

/-- The words of data. -/
def dataLines (size : Int64) : List Line := ((head size).drop 11).take 6

/-- The lines between the data and the fragments. -/
def entry : List Line := (head 0).drop 17

theorem head_eq (size : Int64) : head size = start ++ (dataLines size ++ entry) := rfl

/-- The tail without the stack region. -/
def tailCode : List Line :=
  footer ++
  handler .divideByZero "EDIV" [" Division by 0 was attempted"] ++
  handler .stackError "ESTACK"
    [" Not enough operands on the RPN stack for an operation",
     " (For example: '1 +', or '2 dup + +')"] ++
  handler .stackTooFull "ESTACKFULL"
    [" RPN stack has too many numbers on it at the end of a program",
     " (For example: '3 2 1 +'), or a push found the stack region full"] ++
  faultExit

theorem tail_eq (r : StackRegion) : tail r = tailCode ++ stackLines r := rfl

/-! ### The first pass over the head -/

/-- The labels of the head. -/
def headTable : LabelTable :=
  [("Main", 40), ("ESTACKFULL", 36), ("ESTACK", 32), ("EDIV", 28), ("capacity", 24), ("depth", 20),
   ("init", 0)]

theorem locates_head (size : Int64) : Locates 0 [] 1 (head size) 56 headTable := fun _ => rfl

theorem size_tailCode : size tailCode = 75 := rfl

/-! ### The second pass over the head -/

section

variable {labels : LabelTable} {n : Int}

theorem emits_directive {d : Assembly.Directive} (hd : d = .pos ∨ d = .align) {operand : String}
    {a : Nat} {b : UInt32}
    (h : ((directive d operand).parsed n).addressAfter a.toUInt32 = .ok b) (hle : a ≤ b.toNat) :
    Emits labels a n [directive d operand] [⟨a, none, List.replicate (b.toNat - a) 0⟩] b.toNat := by
  intro chunks
  have hadd : Emission.addLine labels ⟨a, chunks⟩ ((directive d operand).parsed n) =
      .ok (Emission.add ⟨a, chunks⟩ none (List.replicate (b.toNat - a) 0)) := by
    have hm : ((directive d operand).parsed n).mnemonic =
        some (Statement.directive d operand).name :=
      rfl
    unfold Emission.addLine
    simp only [hm, ofName?_name, h]
    rcases hd with rfl | rfl
    · exact if_neg (Nat.not_lt.2 hle)
    · exact if_neg (Nat.not_lt.2 hle)
  simp only [listing, List.foldlM_cons, List.foldlM_nil, hadd]
  have hlen : a + (b.toNat - a) = b.toNat := by omega
  simp [Emission.add, hlen]

theorem emits_dataWord {label gap value note : String} {v : UInt32}
    (h : ((dataWord label gap value note).parsed n).word labels (.ofString value) = .ok v)
    (a : Nat) :
    Emits labels a n [dataWord label gap value note] [⟨a, some n, wordBytes v⟩] (a + 4) := by
  intro chunks
  have hadd : Emission.addLine labels ⟨a, chunks⟩ ((dataWord label gap value note).parsed n) =
      .ok (Emission.add ⟨a, chunks⟩ (some n) (wordBytes v)) := by
    have hm : ((dataWord label gap value note).parsed n).mnemonic =
      some (Statement.directive .long value).name := rfl
    have ho : ((dataWord label gap value note).parsed n).operands = [.ofString value] := rfl
    unfold Emission.addLine
    simp only [hm, ofName?_name, ho, h]
    rfl
  simp only [listing, List.foldlM_cons, List.foldlM_nil, hadd]
  simp [Emission.add, wordBytes]

end

/-- The chunks of the data. -/
def dataChunks (size : Int64) : List Chunk :=
  [⟨20, some 12, wordBytes 0⟩, ⟨24, some 13, wordBytes (UInt32.ofInt size.toInt)⟩,
   ⟨28, some 15, wordBytes 1⟩, ⟨32, some 16, wordBytes 2⟩, ⟨36, some 17, wordBytes 4⟩]

/-- The chunks in front of the data. -/
def startChunks (labels : LabelTable) : List Chunk :=
  [⟨0, none, []⟩] ++ (codeChunks labels 0 6 setup ++ [⟨17, none, [0, 0, 0]⟩])

/-- The chunks of the head. -/
def headChunks (labels : LabelTable) (size : Int64) : List Chunk :=
  startChunks labels ++ (dataChunks size ++ codeChunks labels 40 18 entry)

variable {labels : LabelTable}

theorem word_of_read {text : String} {v : Int} (l : Assembly.Line)
    (hread : Numeral.readSigned .marked 64 (Text.chars (bare (.ofString text))) = .ok v)
    (h : -2 ^ 31 ≤ v) (h' : v < 2 ^ 32) :
    l.word labels (.ofString text) = .ok (UInt32.ofInt v) := by
  rw [word_eq, hread]
  exact if_pos ⟨h, h'⟩

theorem emits_depth (note : String) :
    Emits labels 20 12 [dataWord "depth" "\t" "0x0" note] [⟨20, some 12, wordBytes 0⟩] 24 :=
  emits_dataWord (word_of_read _ (v := 0) (by decide) (by decide) (by decide)) 20

theorem emits_dataLines {size : Int64} (h : 0 ≤ size.toInt) (h' : size.toInt < 2 ^ 32) :
    Emits labels 20 12 (dataLines size) (dataChunks size) 40 := by
  have hcode (f : ProgramFault) (l : Assembly.Line) :
      l.word labels (.ofString (codeText f)) = .ok f.code := by
    rw [codeText_eq]
    cases f with
    | divideByZero => exact word_of_read l (v := 1) (by decide) (by decide) (by decide)
    | stackError => exact word_of_read l (v := 2) (by decide) (by decide) (by decide)
    | stackTooFull => exact word_of_read l (v := 4) (by decide) (by decide) (by decide)
  have hcapacity (l : Assembly.Line) :
      l.word labels (.ofString (Numeral.decimal size.toInt)) = .ok (UInt32.ofInt size.toInt) := by
    refine word_of_read l ?_ (by omega) h'
    rw [bare_decimal, readSigned_decimal (by omega) (by omega)]
  exact (emits_depth _).append ((emits_dataWord (hcapacity _) 24).append
    ((emits_of_none rfl 28 14).append ((emits_dataWord (hcode .divideByZero _) 28).append
    ((emits_dataWord (hcode .stackError _) 32).append
    (emits_dataWord (hcode .stackTooFull _) 36)))))

/-! ### Labels of a program -/

section

variable {os : List Operation} {fs : List (List Line)}

/-- The length of a program's code, the setup and the data included. -/
def codeEnd (fs : List (List Line)) : Nat := 56 + size fs.flatten + 75

/-- The labels of a program's code. -/
def codeTable (fs : List (List Line)) : LabelTable :=
  located (behind 56 fs.flatten) (located 56 headTable fs.flatten) tailCode

/-- The labels of a program. -/
def table (fs : List (List Line)) (limit top : UInt32) : LabelTable :=
  ("Stack", top) :: ("StackLimit", limit) :: codeTable fs

theorem digit_of_mem_tailCode :
    ∀ name ∈ labelNames tailCode, endsInDigit name = false := by
  decide

/-- A name that does not end in a digit is no label of a fragment. -/
theorem not_mem_labelNames_fragments (h : fragments os = .ok fs) {name : String}
    (hname : endsInDigit name = false) : name ∉ labelNames fs.flatten := by
  intro hmem
  obtain ⟨base, m, -, rfl⟩ := exists_of_mem_labelNames_fragments h name hmem
  exact localLabel_ne m hname rfl

/-- **The first pass** gets over the code of a program. -/
theorem locates_program (h : fragments os = .ok fs) (size : Int64) :
    Locates 0 [] 1 (head size ++ fs.flatten ++ tailCode) (codeEnd fs).toUInt32 (codeTable fs) := by
  have hhead (name : String) (hname : name ∈ labelNames fs.flatten) :
      headTable.address? name = none := by
    have hne {name' : String} (hdigit : endsInDigit name' = false) : name ≠ name' := by
      rintro rfl
      exact not_mem_labelNames_fragments h hdigit hname
    unfold headTable
    repeat rw [address?_cons, if_neg (hne (by decide))]
    rfl
  have htail (name : String) (hname : name ∈ labelNames tailCode) :
      (located 56 headTable fs.flatten).address? name = none := by
    rw [address?_located (not_mem_labelNames_fragments h (digit_of_mem_tailCode name hname))]
    revert name
    decide
  have hend : behind (behind 56 fs.flatten) tailCode = (codeEnd fs).toUInt32 := by
    have h56 : (56 : UInt32) = Nat.toUInt32 56 := rfl
    rw [h56, behind_toUInt32, behind_toUInt32, size_tailCode, codeEnd]
  rw [← hend]
  exact ((locates_head size).append
    (locates_code (isCode_fragments h) (nodup_labelNames_fragments h) hhead 56 _)).append
    (locates_code (by decide) (by decide) htail _ _)

/-! ### Addresses of labels -/

theorem labelled_tailCode (fs : List (List Line)) (limit top : UInt32) :
    Labelled (table fs limit top) (behind 56 fs.flatten) tailCode := by
  have hd : (labelNames tailCode).Nodup := by decide
  refine (labelled_located hd (behind 56 fs.flatten)
    (located 56 headTable fs.flatten)).congr fun name hname => ?_
  have hne : name ≠ "Stack" ∧ name ≠ "StackLimit" := by
    revert name
    decide
  rw [table, address?_cons, if_neg hne.1, address?_cons, if_neg hne.2]
  rfl

section

variable (h : fragments os = .ok fs)

include h

theorem address?_codeTable {name : String} (htail : name ∉ labelNames tailCode)
    (hname : endsInDigit name = false) :
    (codeTable fs).address? name = headTable.address? name := by
  rw [codeTable, address?_located htail, address?_located (not_mem_labelNames_fragments h hname)]

variable (limit top : UInt32)

theorem labelled_fragments : Labelled (table fs limit top) 56 fs.flatten := by
  refine (labelled_located (nodup_labelNames_fragments h) 56 headTable).congr fun name hname => ?_
  have hne {name' : String} (hdigit : endsInDigit name' = false) : name ≠ name' := by
    rintro rfl
    exact not_mem_labelNames_fragments h hdigit hname
  have htail : name ∉ labelNames tailCode := fun hmem =>
    not_mem_labelNames_fragments h (digit_of_mem_tailCode name hmem) hname
  rw [table, address?_cons, if_neg (hne (by decide)), address?_cons, if_neg (hne (by decide)),
    codeTable, address?_located htail]

theorem address?_table {name : String} (hname : name ∈ headTable.map Prod.fst) :
    (table fs limit top).address? name = headTable.address? name := by
  obtain ⟨h1, h2, h3, h4⟩ : name ≠ "Stack" ∧ name ≠ "StackLimit" ∧ name ∉ labelNames tailCode ∧
      endsInDigit name = false := by
    revert name
    decide
  rw [table, address?_cons, if_neg h1, address?_cons, if_neg h2, address?_codeTable h h3 h4]

theorem resolved_fragments : Resolved (table fs limit top) fs.flatten := by
  refine resolved_of_references fun name hname => ?_
  rcases references_fragments h name hname with hmem | ⟨f, rfl⟩
  · exact (labelled_fragments h limit top).isSome hmem
  · refine (labelled_tailCode fs limit top).isSome ?_
    cases f <;> decide

theorem resolved_tailCode : Resolved (table fs limit top) tailCode := by
  refine resolved_of_references fun name hname => ?_
  have hcases : name ∈ labelNames tailCode ∨ name ∈ headTable.map Prod.fst := by
    revert name
    decide
  rcases hcases with hmem | hmem
  · exact (labelled_tailCode fs limit top).isSome hmem
  · rw [address?_table h limit top hmem]
    revert name
    decide

theorem resolved_setup : Resolved (table fs limit top) setup := by
  have hmain : (table fs limit top).address? "Main" = some 40 :=
    address?_table h limit top (by decide)
  refine resolved_of_references fun name hname => ?_
  have hcases : name = "Stack" ∨ name = "Main" := by
    revert name
    decide
  rcases hcases with rfl | rfl
  · rfl
  · rw [hmain]
    rfl

theorem resolved_entry : Resolved (table fs limit top) entry := by
  have hdepth : (table fs limit top).address? "depth" = some 20 :=
    address?_table h limit top (by decide)
  refine resolved_of_references fun name hname => ?_
  obtain rfl : name = "depth" := by
    revert name
    decide
  rw [hdepth]
  rfl

end

end

end RpnY86.Code
