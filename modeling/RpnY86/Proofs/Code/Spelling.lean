import RpnY86.Code.Program
import RpnY86.Proofs.Code.Fragments
import RpnY86.Proofs.Code.Legible

/-! # Every line of a program is legible

Labels are names, notes are comments, and numbers fit in words. Hence a program is read back line by
line as it was generated. -/

namespace RpnY86.Code

open Y86 (AluOp Instruction Reg)

/-! ### Kinds of lines -/

theorem legible_iff {l : Line} (hg : ∀ c ∈ l.gap.toList, c = '\t') :
    l.Legible ↔ (∀ name, l.label = some name → isName name.toList = true) ∧
      (∀ s, l.statement = some s → s.Legible) ∧ isNote l.note.toList = true :=
  ⟨fun h => ⟨h.label, h.statement, h.note⟩, fun h => ⟨h.1, hg, h.2.1, h.2.2⟩⟩

section

variable {text : String}

@[simp] theorem legible_heading : (Line.heading text).Legible ↔ '\n' ∉ text.toList := by
  rw [legible_iff (l := .heading text) (by simp [Line.heading])]
  simp [Line.heading, isNote]

@[simp] theorem legible_comment : (Line.comment text).Legible ↔ '\n' ∉ text.toList := by
  rw [legible_iff (l := .comment text) (by simp [Line.comment])]
  simp [Line.comment, isNote]

@[simp] theorem legible_mark : (Line.mark text).Legible ↔ isName text.toList = true := by
  rw [legible_iff (l := .mark text) (by simp [Line.mark])]
  simp [Line.mark, isNote]

@[simp] theorem legible_noted {i : Instruction Ref} :
    (Line.noted i text).Legible ↔
      (Statement.instruction i).Legible ∧ isNote text.toList = true := by
  rw [legible_iff (l := .noted i text) (by simp [Line.noted])]
  simp [Line.noted]

@[simp] theorem legible_op {i : Instruction Ref} :
    (Line.op i).Legible ↔ (Statement.instruction i).Legible := by
  rw [Line.op, legible_noted]
  simp [isNote]

end

theorem isName_append {cs ds : List Char} (h : isName cs = true)
    (hd : ∀ c ∈ ds, c.isAlphanum = true ∨ c = '_') : isName (cs ++ ds) = true := by
  cases cs with
  | nil => exact nomatch h
  | cons c cs =>
    simp only [isName, List.cons_append, Bool.and_eq_true, List.all_eq_true, Bool.or_eq_true,
      beq_iff_eq] at h ⊢
    exact ⟨h.1, List.forall_mem_append.2 ⟨h.2, hd⟩⟩

theorem isName_localLabel {name : String} (h : isName name.toList = true) (n : Nat) :
    isName (localLabel name n).toList = true := by
  rw [localLabel, String.toList_append, String.toList_append]
  refine isName_append (isName_append h ?_) fun c hc => .inl ?_
  · exact List.forall_mem_singleton.2 (.inr rfl)
  · rw [Numeral.decimal, String.toList_ofList] at hc
    exact isAlphanum_of_mem_digits (by omega) (by omega) hc

/-! ### Numbers -/

@[simp] theorem newline_decimal (n : Int) : '\n' ∉ (Numeral.decimal n).toList :=
  (isWord_decimal n).unbroken

/-! ### Fragments -/

theorem legible_requireDepth {n : Int} (h : n < 2 ^ 31) : ∀ l ∈ requireDepth n, l.Legible := by
  unfold requireDepth
  split
  · exact List.forall_mem_nil _
  · have hnoun : '\n' ∉ (if n = 1 then "argument" else "arguments").toList := by
      split <;> decide
    simp +decide [loadDepth, loadAt, setTo, goto, stackError, Statement.Legible, Ref.Legible,
      isNote, hnoun]
    omega

theorem legible_requireRoom {n : Int} (h : n < 2 ^ 31) : ∀ l ∈ requireRoom n, l.Legible := by
  unfold requireRoom
  split
  · exact List.forall_mem_nil _
  · split
    · simp +decide [loadDepth, loadAt, setTo, goto, stackTooFull, capacityOffset,
        Statement.Legible, Ref.Legible, isNote]
      omega
    · simp +decide [loadDepth, loadAt, goto, stackTooFull, capacityOffset, Statement.Legible,
        Ref.Legible, isNote]

theorem legible_adjustDepth {n : Int} (h : -2 ^ 31 ≤ n) (h' : n < 2 ^ 31) :
    ∀ l ∈ adjustDepth n, l.Legible := by
  unfold adjustDepth
  split
  · exact List.forall_mem_nil _
  · split <;>
    · simp +decide [legible_blank, loadDepth, loadAt, setTo, Statement.Legible, Ref.Legible]
      omega

theorem legible_negate (r tmp : Reg) : ∀ l ∈ negate r tmp, l.Legible := by
  have hr := (isWord_register r).unbroken
  have ht := (isWord_register tmp).unbroken
  simp +decide [negate, copy, Statement.Legible, isNote, hr, ht]

theorem legible_nonPositive (r tmp : Reg) {skip : String} (h : isName skip.toList = true) :
    ∀ l ∈ nonPositive r tmp skip, l.Legible := by
  unfold nonPositive
  simp only [List.forall_mem_append]
  exact ⟨⟨by simp +decide [goto, Statement.Legible, Ref.Legible, h], legible_negate r tmp⟩,
    by simp [h]⟩

theorem legible_multiplyOperands (n : Nat) : ∀ l ∈ multiplyOperands n, l.Legible := by
  have hdone : isName (mulDone n).toList = true := isName_localLabel (by decide) n
  simp +decide [multiplyOperands, legible_blank, goto, copy, Statement.Legible, Ref.Legible,
    hdone]

theorem legible_multiplyLoop (n : Nat) : ∀ l ∈ multiplyLoop n, l.Legible := by
  have hdone : isName (mulDone n).toList = true := isName_localLabel (by decide) n
  have hloop : isName (localLabel "mul_loop" n).toList = true := isName_localLabel (by decide) n
  have hordered : isName (localLabel "mul_ordered" n).toList = true :=
    isName_localLabel (by decide) n
  simp +decide [multiplyLoop, legible_blank, goto, copy, setTo, Statement.Legible, Ref.Legible,
    hdone, hloop, hordered]

theorem legible_pushResult {done : String} (h : isName done.toList = true) :
    ∀ l ∈ pushResult done, l.Legible := by
  simp [pushResult, Statement.Legible, h]

theorem legible_multiply (n : Nat) : ∀ l ∈ multiply n, l.Legible := by
  simp only [multiply, List.forall_mem_append]
  exact ⟨⟨⟨⟨⟨legible_multiplyOperands n, legible_nonPositive _ _ (isName_localLabel (by decide) n)⟩,
    legible_nonPositive _ _ (isName_localLabel (by decide) n)⟩, legible_multiplyLoop n⟩,
    legible_negate _ _⟩, legible_pushResult (isName_localLabel (by decide) n)⟩

theorem legible_divideOperands (n : Nat) : ∀ l ∈ divideOperands n, l.Legible := by
  have hdone : isName (divDone n).toList = true := isName_localLabel (by decide) n
  simp +decide [divideOperands, legible_blank, goto, copy, loadAt, divideByZero,
    Statement.Legible, Ref.Legible, hdone]

theorem legible_divideLoop (n : Nat) : ∀ l ∈ divideLoop n, l.Legible := by
  have hdone : isName (divDone n).toList = true := isName_localLabel (by decide) n
  have hloop : isName (localLabel "div_loop" n).toList = true := isName_localLabel (by decide) n
  have hdouble : isName (localLabel "div_double" n).toList = true :=
    isName_localLabel (by decide) n
  have htake : isName (localLabel "div_take" n).toList = true := isName_localLabel (by decide) n
  have hsign : isName (localLabel "div_sign" n).toList = true := isName_localLabel (by decide) n
  simp +decide [divideLoop, goto, copy, loadAt, setTo, Statement.Legible, Ref.Legible,
    hdone, hloop, hdouble, htake, hsign]

theorem legible_divide (n : Nat) : ∀ l ∈ divide n, l.Legible := by
  simp only [divide, List.forall_mem_append]
  exact ⟨⟨⟨⟨⟨legible_divideOperands n, legible_nonPositive _ _ (isName_localLabel (by decide) n)⟩,
    legible_nonPositive _ _ (isName_localLabel (by decide) n)⟩, legible_divideLoop n⟩,
    legible_negate _ _⟩, legible_pushResult (isName_localLabel (by decide) n)⟩

theorem legible_arithmetic (op : AluOp) : ∀ l ∈ arithmetic op, l.Legible := by
  have hsign : '\n' ∉ (aluSign op).toList := by cases op <;> decide
  simp +decide [arithmetic, legible_blank, Statement.Legible, isNote, hsign]

theorem legible_pushNumber {v : Int} (h : -2 ^ 31 ≤ v) (h' : v < 2 ^ 31) :
    ∀ l ∈ pushNumber v, l.Legible := by
  simp +decide [pushNumber, setTo, Statement.Legible, Ref.Legible]
  omega

theorem legible_duplicate : ∀ l ∈ duplicate, l.Legible := by
  simp [duplicate, legible_blank, Statement.Legible]

theorem legible_exchange : ∀ l ∈ exchange, l.Legible := by
  simp +decide [exchange, legible_blank, Statement.Legible]

theorem legible_core {n : Nat} {o : Operation} {ls : List Line} (h : core n o = .ok ls) :
    ∀ l ∈ ls, l.Legible := by
  obtain ⟨opcode, literal, pos⟩ := o
  cases opcode with
  | other c => cases h
  | push =>
    obtain ⟨v, hv, rfl⟩ := core_push_eq_ok.1 h
    obtain ⟨h1, h2⟩ := Numeral.readSigned_bounds hv
    exact legible_pushNumber h1 h2
  | dup =>
    obtain rfl := Except.ok.inj h
    exact legible_duplicate
  | swap =>
    obtain rfl := Except.ok.inj h
    exact legible_exchange
  | plus | minus | and | xor =>
    obtain rfl := Except.ok.inj h
    exact legible_arithmetic _
  | multiply =>
    obtain rfl := Except.ok.inj h
    exact legible_multiply n
  | divide =>
    obtain rfl := Except.ok.inj h
    exact legible_divide n

theorem legible_opening (o : Opcode) : ∀ l ∈ opening o, l.Legible := by
  have hname : '\n' ∉ o.name.toList := by
    cases o with
    | other code =>
      rw [Opcode.name, String.toList_append, String.toList_append]
      simp
    | _ => decide
  simp [opening, legible_blank, hname]

theorem legible_fragment {n : Nat} {o : Operation} {ls : List Line} (h : fragment n o = .ok ls) :
    ∀ l ∈ ls, l.Legible := by
  obtain ⟨e, code, he, hc, rfl⟩ := fragment_eq_ok h
  have hsmall : e.pops ≤ 2 ∧ e.pushes ≤ 2 := by
    cases ho : o.opcode <;> rw [ho] at he <;> cases he <;> decide
  simp only [framed, List.forall_mem_append]
  refine ⟨⟨⟨⟨legible_opening _, legible_requireDepth ?_⟩, legible_requireRoom ?_⟩,
    legible_core hc⟩, legible_adjustDepth ?_ ?_⟩
  · omega
  all_goals
    unfold StackEffect.delta
    omega

theorem legible_fragments {n : Nat} {os : List Operation} {fs : List (List Line)}
    (h : fragmentsFrom n os = .ok fs) : ∀ l ∈ fs.flatten, l.Legible := by
  induction os generalizing n fs with
  | nil =>
    obtain rfl := Except.ok.inj h
    exact List.forall_mem_nil _
  | cons o os ih =>
    obtain ⟨ls, gs, hf, hr, rfl⟩ := fragmentsFrom_cons h
    rw [List.flatten_cons, List.forall_mem_append]
    exact ⟨legible_fragment hf, ih hr⟩

/-! ### Head and tail -/

@[simp] theorem legible_directive {d : Assembly.Directive} {operand : String} :
    (directive d operand).Legible ↔ IsWord operand.toList := by
  rw [legible_iff (l := directive d operand) (by simp [directive])]
  simp [directive, Statement.Legible, isNote]

theorem legible_dataWord {label gap value note : String} (hl : isName label.toList = true)
    (hg : ∀ c ∈ gap.toList, c = '\t') (hv : IsWord value.toList)
    (hn : isNote note.toList = true) : (dataWord label gap value note).Legible where
  label _ h := Option.some.inj h ▸ hl
  gap := hg
  statement _ h := Option.some.inj h ▸ hv
  note := hn

theorem codeText_eq (f : ProgramFault) :
    codeText f = match f with
      | .divideByZero => "0x01"
      | .stackError => "0x02"
      | .stackTooFull => "0x04" := by
  cases f <;>
  · unfold codeText Numeral.paddedHex Numeral.paddedDigits
    rw [Numeral.digits, dif_neg (by decide)]
    rfl

theorem isWord_codeText (f : ProgramFault) : IsWord (codeText f).toList := by
  rw [codeText_eq]
  cases f <;> decide

theorem legible_head (size : Int64) : ∀ l ∈ head size, l.Legible := by
  have hinit : ({ label := some "init"
                  gap := "\t"
                  statement := some (.instruction (.constant (.label "Stack") .esp))
                  note := "\t# Set up stack pointer" } : Line).Legible := by
    rw [legible_iff (by simp)]
    simp +decide [Statement.Legible, Ref.Legible]
  have hdepth : (dataWord "depth" "\t" "0x0" "\t\t# Keeps track of the RPN stack depth").Legible :=
    legible_dataWord (by decide) (by simp) (by decide) (by decide)
  have hcapacity : (dataWord "capacity" "\t" (Numeral.decimal size.toInt)
      "\t# Number of values the stack region holds").Legible :=
    legible_dataWord (by decide) (by simp) (isWord_decimal _) (by decide)
  have hdiv : (dataWord "EDIV" "\t\t" (codeText .divideByZero) "\t# Divide by 0 errno").Legible :=
    legible_dataWord (by decide) (by simp) (isWord_codeText _) (by decide)
  have hstack : (dataWord "ESTACK" "\t\t" (codeText .stackError)
      "\t# Depth of RPN stack too shallow errno").Legible :=
    legible_dataWord (by decide) (by simp) (isWord_codeText _) (by decide)
  have hfull : (dataWord "ESTACKFULL" "\t" (codeText .stackTooFull)
      "\t# Depth of RPN stack too high errno").Legible :=
    legible_dataWord (by decide) (by simp) (isWord_codeText _) (by decide)
  simp +decide [head, legible_blank, hinit, hdepth, hcapacity, hdiv, hstack, hfull, goto,
    Statement.Legible, Ref.Legible]

theorem legible_footer : ∀ l ∈ footer, l.Legible := by
  simp +decide [footer, legible_blank, loadDepth, loadAt, setTo, goto, stackError, stackTooFull,
    Statement.Legible, Ref.Legible]

theorem legible_handler {f : ProgramFault} {cell : String} {explanation : List String}
    (hcell : isName cell.toList = true) (h : ∀ text ∈ explanation, '\n' ∉ text.toList) :
    ∀ l ∈ handler f cell explanation, l.Legible := by
  have hlabel : isName (faultLabel f).toList = true := by cases f <;> decide
  have hnote := (isWord_of_isName hcell).unbroken
  have habove : ∀ l ∈ explanation.map Line.heading, l.Legible := by
    intro l hl
    obtain ⟨text, htext, rfl⟩ := List.mem_map.1 hl
    exact legible_heading.2 (h text htext)
  unfold handler
  refine List.forall_mem_append.2 ⟨List.forall_mem_append.2
    ⟨List.forall_mem_cons.2 ⟨by simp, habove⟩, by simp⟩, ?_⟩
  simp +decide [legible_blank, exitLabel, goto, Statement.Legible, Ref.Legible, isNote, hlabel,
    hcell, hnote]

theorem legible_faultExit : ∀ l ∈ faultExit, l.Legible := by
  simp +decide [faultExit, legible_blank, exitLabel, loadAt, setTo, Statement.Legible, Ref.Legible]

theorem legible_stackLines (r : StackRegion) : ∀ l ∈ stackLines r, l.Legible := by
  have hzero : ∀ c ∈ ['0', 'x'], isPlain c = true := List.all_eq_true.1 (by decide)
  have hhex (n : Int) : IsWord ('0' :: 'x' :: (Numeral.hex n).toList) := (isWord_hex n).prepend hzero
  simp +decide [stackLines, hhex]

theorem legible_tail (r : StackRegion) : ∀ l ∈ tail r, l.Legible := by
  simp only [tail, List.forall_mem_append]
  exact ⟨⟨⟨⟨⟨legible_footer, legible_handler (by decide) (by decide)⟩,
    legible_handler (by decide) (by decide)⟩, legible_handler (by decide) (by decide)⟩,
    legible_faultExit⟩, legible_stackLines r⟩

end RpnY86.Code
