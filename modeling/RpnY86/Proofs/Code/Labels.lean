import RpnY86.Code.Program
import RpnY86.Proofs.Code.Fragments
import RpnY86.Proofs.Code.Passes

/-! # Labels and lengths of fragments

The labels of a fragment end in its suffix, and no two fragments with labels have the same suffix.
So the labels of a program are distinct. A fragment refers to labels of its own and to handlers
only. Its length is known from the opcode. -/

namespace RpnY86.Code

open Assembly (LabelTable)
open Y86 (AluOp Instruction)

/-! ### Forms of fragments -/

/-- What holds of the fragment of each opcode holds of every fragment. -/
theorem fragment_cases {P : Opcode → List Line → Prop} {n : Nat}
    (push : ∀ v, P .push (framed .push ⟨0, 1⟩ (pushNumber v)))
    (dup : P .dup (framed .dup ⟨1, 2⟩ duplicate)) (swap : P .swap (framed .swap ⟨2, 2⟩ exchange))
    (plus : P .plus (framed .plus ⟨2, 1⟩ (arithmetic .add)))
    (minus : P .minus (framed .minus ⟨2, 1⟩ (arithmetic .sub)))
    (and : P .and (framed .and ⟨2, 1⟩ (arithmetic .and)))
    (xor : P .xor (framed .xor ⟨2, 1⟩ (arithmetic .xor)))
    (multiply : P .multiply (framed .multiply ⟨2, 1⟩ (multiply n)))
    (divide : P .divide (framed .divide ⟨2, 1⟩ (divide n)))
    {o : Operation} {ls : List Line} (h : fragment n o = .ok ls) : P o.opcode ls := by
  obtain ⟨e, code, he, hc, rfl⟩ := fragment_eq_ok h
  obtain ⟨opcode, literal, pos⟩ := o
  cases opcode with
  | other c => cases he
  | push =>
    obtain rfl := Option.some.inj he
    obtain ⟨v, -, rfl⟩ := core_push_eq_ok.1 hc
    exact push v
  | _ =>
    obtain rfl := Option.some.inj he
    obtain rfl := Except.ok.inj hc
    assumption

theorem isCode_fragment {n : Nat} {o : Operation} {ls : List Line} (h : fragment n o = .ok ls) :
    ∀ l ∈ ls, l.isCode = true :=
  List.all_eq_true.1 (fragment_cases (P := fun _ ls => ls.all Line.isCode = true)
    (fun _ => rfl) rfl rfl rfl rfl rfl rfl rfl rfl h)

/-! ### Lengths -/

theorem size_framed (o : Opcode) (e : StackEffect) (code : List Line) :
    size (framed o e code) =
      size (requireDepth e.pops) + size (requireRoom e.delta) + size code +
        size (adjustDepth e.delta) := by
  simp [framed, opening, Nat.add_assoc]

theorem size_requireDepth {k : Int} (hk : 0 < k) : size (requireDepth k) = 19 := by
  rw [requireDepth, if_neg (by omega)]
  simp [loadDepth, loadAt, setTo, goto, Instruction.length]

theorem size_requireRoom_one : size (requireRoom 1) = 19 := by
  simp [requireRoom, loadDepth, loadAt, goto, Instruction.length]

theorem size_adjustDepth {k : Int} (hk : k ≠ 0) : size (adjustDepth k) = 20 := by
  rw [adjustDepth, if_neg hk]
  simp [loadDepth, loadAt, setTo, Instruction.length]

theorem size_arithmetic (op : AluOp) : size (arithmetic op) = 8 := by
  simp [arithmetic, Instruction.length]

theorem size_multiply (n : Nat) : size (multiply n) = 99 := by
  simp [multiply, multiplyOperands, multiplyLoop, nonPositive, negate, pushResult, goto, copy,
    setTo, Instruction.length]

theorem size_divide (n : Nat) : size (divide n) = 138 := by
  simp [divide, divideOperands, divideLoop, nonPositive, negate, pushResult, goto, copy, loadAt,
    setTo, Instruction.length]

/-- The length of the code of an opcode. -/
def codeLength : Opcode → Nat
  | .push | .plus | .minus | .and | .xor => 47
  | .dup => 64
  | .swap => 27
  | .multiply => 138
  | .divide => 177
  | .other _ => 0

/-- **The length of a fragment** depends on the opcode only. -/
theorem size_fragment {n : Nat} {o : Operation} {ls : List Line} (h : fragment n o = .ok ls) :
    size ls = codeLength o.opcode := by
  have hbinary (o : Opcode) (code : List Line) :
      size (framed o ⟨2, 1⟩ code) = 39 + size code := by
    have hdelta : StackEffect.delta ⟨2, 1⟩ = -1 := rfl
    have hroom : size (requireRoom (-1)) = 0 := rfl
    rw [size_framed, hdelta, size_requireDepth (by decide), hroom, size_adjustDepth (by decide)]
    omega
  refine fragment_cases (P := fun opcode ls => size ls = codeLength opcode) (fun v => ?push) ?dup
    ?swap ?plus ?minus ?and ?xor ?multiply ?divide h
  case push =>
    have hdelta : StackEffect.delta ⟨0, 1⟩ = 1 := rfl
    have hdepth : size (requireDepth (0 : Nat)) = 0 := rfl
    rw [size_framed, hdelta, hdepth, size_requireRoom_one, size_adjustDepth (by decide)]
    simp [pushNumber, setTo, Instruction.length, codeLength]
  case dup =>
    have hdelta : StackEffect.delta ⟨1, 2⟩ = 1 := rfl
    rw [size_framed, hdelta, size_requireDepth (by decide), size_requireRoom_one,
      size_adjustDepth (by decide)]
    simp [duplicate, Instruction.length, codeLength]
  case swap =>
    have hdelta : StackEffect.delta ⟨2, 2⟩ = 0 := rfl
    have hroom : size (requireRoom 0) = 0 := rfl
    have hadjust : size (adjustDepth 0) = 0 := rfl
    rw [size_framed, hdelta, size_requireDepth (by decide), hroom, hadjust]
    simp [exchange, Instruction.length, codeLength]
  case multiply => rw [hbinary, size_multiply, codeLength]
  case divide => rw [hbinary, size_divide, codeLength]
  all_goals rw [hbinary, size_arithmetic, codeLength]

/-! ### Labels -/

/-- The labels of an opcode's code, without the suffix. -/
def localNames : Opcode → List String
  | .multiply => ["mul_neg_a", "mul_neg_b", "mul_ordered", "mul_loop", "mul_done"]
  | .divide =>
    ["div_neg_a", "div_neg_b", "div_loop", "div_double", "div_take", "div_sign", "div_done"]
  | _ => []

theorem labelNames_fragment {n : Nat} {o : Operation} {ls : List Line}
    (h : fragment n o = .ok ls) :
    labelNames ls = (localNames o.opcode).map (localLabel · n) :=
  fragment_cases
    (P := fun opcode ls => labelNames ls = (localNames opcode).map (localLabel · n))
    (fun _ => rfl) rfl rfl rfl rfl rfl rfl rfl rfl h

/-! ### References -/

/-- The labels that an instruction refers to. -/
def Ref.names : Ref → List String
  | .literal _ => []
  | .label name => [name]

/-- The labels that a line refers to. -/
def Line.references (l : Line) : List String :=
  match l.statement with
  | some (.instruction (.constant v _)) => v.names
  | some (.instruction (.store _ d _)) => d.names
  | some (.instruction (.load d _ _)) => d.names
  | some (.instruction (.jump _ dest)) => dest.names
  | some (.instruction (.call dest)) => dest.names
  | _ => []

/-- The labels that lines refer to. -/
def references (ls : List Line) : List String := ls.flatMap Line.references

theorem resolved_of_references {labels : LabelTable} {ls : List Line}
    (h : ∀ name ∈ references ls, (labels.address? name).isSome) : Resolved labels ls := by
  intro l hl i hi
  have href (r : Ref) (hr : l.references = r.names) : (r.resolve? labels).isSome := by
    cases r with
    | literal n => rfl
    | label name =>
      refine h name (List.mem_flatMap.2 ⟨l, hl, ?_⟩)
      rw [hr]
      exact List.mem_singleton.2 rfl
  unfold Line.references at href
  rw [hi] at href
  cases i with
  | constant v dst => exact Option.isSome_map.trans (href v rfl)
  | store src d base => exact Option.isSome_map.trans (href d rfl)
  | load d base dst => exact Option.isSome_map.trans (href d rfl)
  | jump c dest => exact Option.isSome_map.trans (href dest rfl)
  | call dest => exact Option.isSome_map.trans (href dest rfl)
  | _ => rfl

theorem references_fragment {n : Nat} {o : Operation} {ls : List Line}
    (h : fragment n o = .ok ls) :
    ∀ name ∈ references ls, name ∈ labelNames ls ∨ ∃ f, name = faultLabel f := by
  have herror : ∃ f, stackError = faultLabel f := ⟨.stackError, rfl⟩
  have hfull : ∃ f, stackTooFull = faultLabel f := ⟨.stackTooFull, rfl⟩
  have hzero : ∃ f, divideByZero = faultLabel f := ⟨.divideByZero, rfl⟩
  rw [labelNames_fragment h]
  refine fragment_cases (P := fun opcode ls => ∀ name ∈ references ls,
      name ∈ (localNames opcode).map (localLabel · n) ∨ ∃ f, name = faultLabel f)
    (fun v => ?push) ?dup ?swap ?plus ?minus ?and ?xor ?multiply ?divide h
  case push => exact List.forall_mem_singleton.2 (.inr hfull)
  case dup => exact List.forall_mem_cons.2 ⟨.inr herror, List.forall_mem_singleton.2 (.inr hfull)⟩
  case multiply =>
    have hrefs : references (framed .multiply ⟨2, 1⟩ (multiply n)) =
        [stackError, mulDone n, mulDone n, localLabel "mul_neg_a" n, localLabel "mul_neg_b" n,
          localLabel "mul_ordered" n, localLabel "mul_loop" n, mulDone n] := rfl
    simp [hrefs, localNames, herror, mulDone]
  case divide =>
    have hrefs : references (framed .divide ⟨2, 1⟩ (divide n)) =
        [stackError, divideByZero, divDone n, localLabel "div_neg_a" n, localLabel "div_neg_b" n,
          localLabel "div_sign" n, localLabel "div_take" n, localLabel "div_take" n,
          localLabel "div_double" n, localLabel "div_loop" n, divDone n] := rfl
    simp [hrefs, localNames, herror, hzero, divDone]
  all_goals exact List.forall_mem_singleton.2 (.inr herror)

/-! ### Names with suffixes -/

theorem toList_localLabel (name : String) (n : Nat) :
    (localLabel name n).toList = name.toList ++ '_' :: Numeral.digits 10 n := by
  have hdigits : (Numeral.decimal n).toList = Numeral.digits 10 n := String.toList_ofList
  rw [localLabel, String.toList_append, String.toList_append, hdigits, List.append_assoc]
  rfl

theorem underscore_not_mem_digits (n : Nat) : '_' ∉ Numeral.digits 10 n := by
  intro h
  obtain ⟨d, hd, -⟩ := Numeral.areDigits_digits (by omega) (by omega) n '_' h
  exact nomatch hd

theorem localLabel_inj {name name' : String} {n n' : Nat}
    (h : localLabel name n = localLabel name' n') : name = name' ∧ n = n' := by
  have hlist := congrArg (fun s : String => s.toList.reverse) h
  simp only [toList_localLabel, List.reverse_append, List.reverse_cons, List.append_assoc,
    List.singleton_append] at hlist
  -- the digits are what precedes the first underscore from behind
  have htake (k : Nat) (cs : List Char) :
      ((Numeral.digits 10 k).reverse ++ '_' :: cs).takeWhile (· != '_') =
        (Numeral.digits 10 k).reverse := by
    rw [List.takeWhile_append_of_pos]
    · exact List.append_nil _
    · intro c hc
      rw [bne_iff_ne]
      rintro rfl
      exact underscore_not_mem_digits k (List.mem_reverse.1 hc)
  have hdigits : (Numeral.digits 10 n).reverse = (Numeral.digits 10 n').reverse := by
    rw [← htake n name.toList.reverse, hlist, htake]
  refine ⟨?_, ?_⟩
  · rw [hdigits] at hlist
    have hname := (List.cons.inj (List.append_cancel_left hlist)).2
    exact String.toList_injective (List.reverse_injective hname)
  · have hvalue := congrArg (Numeral.valueFrom 10 0) (List.reverse_injective hdigits)
    rwa [Numeral.valueFrom_digits (by omega) (by omega),
      Numeral.valueFrom_digits (by omega) (by omega)] at hvalue

/-- A name that ends in a digit. -/
def endsInDigit (name : String) : Bool := name.toList.getLast?.any Char.isDigit

/-- A label with a suffix ends in a digit. -/
theorem localLabel_ne {name name' : String} (n : Nat) (h : endsInDigit name' = false) :
    localLabel name n ≠ name' := by
  rintro rfl
  obtain ⟨c, hc⟩ := Option.isSome_iff_exists.1
    (List.getLast?_isSome.2 (Numeral.digits_ne_nil 10 n))
  obtain ⟨d, hd, hlt⟩ : ∃ d, Numeral.digitValue? c = some d ∧ d < 10 :=
    Numeral.areDigits_digits (by omega) (by omega) n c (List.mem_of_getLast? hc)
  have hdigit : c.isDigit = true := Numeral.isDigit_iff.2 ⟨d, hd, hlt⟩
  have hlast : (localLabel name n).toList.getLast? = some c := by
    rw [toList_localLabel, List.getLast?_append, List.getLast?_cons, hc]
    rfl
  rw [endsInDigit, hlast, Option.any_some, hdigit] at h
  exact nomatch h

/-! ### Sequences of fragments -/

section

variable {n : Nat} {os : List Operation} {fs : List (List Line)}

theorem isCode_fragments (h : fragmentsFrom n os = .ok fs) :
    ∀ l ∈ fs.flatten, l.isCode = true := by
  induction os generalizing n fs with
  | nil =>
    obtain rfl := Except.ok.inj h
    exact List.forall_mem_nil _
  | cons o os ih =>
    obtain ⟨ls, gs, hf, hr, rfl⟩ := fragmentsFrom_cons h
    exact List.forall_mem_append.2 ⟨isCode_fragment hf, ih hr⟩

theorem size_fragments (h : fragmentsFrom n os = .ok fs) :
    size fs.flatten = (os.map fun o => codeLength o.opcode).sum := by
  induction os generalizing n fs with
  | nil =>
    obtain rfl := Except.ok.inj h
    rfl
  | cons o os ih =>
    obtain ⟨ls, gs, hf, hr, rfl⟩ := fragmentsFrom_cons h
    rw [List.flatten_cons, size_append, size_fragment hf, ih hr, List.map_cons, List.sum_cons]

theorem codeLength_pos {m : Nat} {o : Operation} {ls : List Line} (h : fragment m o = .ok ls) :
    0 < codeLength o.opcode := by
  obtain ⟨e, code, he, -, -⟩ := fragment_eq_ok h
  cases ho : o.opcode with
  | other c =>
    rw [ho] at he
    exact nomatch he
  | _ => decide

theorem length_le_size_fragments (h : fragmentsFrom n os = .ok fs) :
    os.length ≤ size fs.flatten := by
  induction os generalizing n fs with
  | nil => exact Nat.zero_le _
  | cons o os ih =>
    obtain ⟨ls, gs, hf, hr, rfl⟩ := fragmentsFrom_cons h
    have hpos := codeLength_pos hf
    have ih := ih hr
    rw [List.flatten_cons, size_append, size_fragment hf, List.length_cons]
    omega

theorem references_fragments (h : fragmentsFrom n os = .ok fs) :
    ∀ name ∈ references fs.flatten, name ∈ labelNames fs.flatten ∨ ∃ f, name = faultLabel f := by
  induction os generalizing n fs with
  | nil =>
    obtain rfl := Except.ok.inj h
    exact List.forall_mem_nil _
  | cons o os ih =>
    obtain ⟨ls, gs, hf, hr, rfl⟩ := fragmentsFrom_cons h
    intro name hname
    rw [List.flatten_cons, references, List.flatMap_append] at hname
    rw [List.flatten_cons, labelNames_append, List.mem_append]
    rcases List.mem_append.1 hname with hname | hname
    · exact (references_fragment hf name hname).imp_left .inl
    · exact (ih hr name hname).imp_left .inr

theorem exists_of_mem_labelNames_fragments (h : fragmentsFrom n os = .ok fs) :
    ∀ name ∈ labelNames fs.flatten, ∃ base m, n ≤ m ∧ name = localLabel base m := by
  induction os generalizing n fs with
  | nil =>
    obtain rfl := Except.ok.inj h
    exact List.forall_mem_nil _
  | cons o os ih =>
    obtain ⟨ls, gs, hf, hr, rfl⟩ := fragmentsFrom_cons h
    rw [List.flatten_cons, labelNames_append, labelNames_fragment hf]
    refine List.forall_mem_append.2 ⟨fun name hname => ?_, fun name hname => ?_⟩
    · obtain ⟨base, -, rfl⟩ := List.mem_map.1 hname
      exact ⟨base, n, Nat.le_refl n, rfl⟩
    · obtain ⟨base, m, hm, rfl⟩ := ih hr name hname
      exact ⟨base, m, Nat.le_trans (Nat.le_add_right n _) hm, rfl⟩

/-- **Labels of fragments are distinct.** -/
theorem nodup_labelNames_fragments (h : fragmentsFrom n os = .ok fs) :
    (labelNames fs.flatten).Nodup := by
  induction os generalizing n fs with
  | nil =>
    obtain rfl := Except.ok.inj h
    exact List.nodup_nil
  | cons o os ih =>
    obtain ⟨ls, gs, hf, hr, rfl⟩ := fragmentsFrom_cons h
    rw [List.flatten_cons, labelNames_append, labelNames_fragment hf, List.nodup_append]
    refine ⟨?_, ih hr, ?_⟩
    · refine List.Nodup.map (fun a b hab => (localLabel_inj hab).1) ?_
      cases o.opcode with
      | other code => exact List.nodup_nil
      | _ => decide
    · intro name hname name' hname' heq
      obtain ⟨base, hbase, rfl⟩ := List.mem_map.1 hname
      obtain ⟨base', m, hm, rfl⟩ := exists_of_mem_labelNames_fragments hr name' hname'
      obtain ⟨-, rfl⟩ := localLabel_inj heq
      -- an opcode with labels uses up its suffix
      have hone : suffixes o.opcode = 1 := by
        cases ho : o.opcode <;> rw [ho] at hbase
        case multiply => rfl
        case divide => rfl
        all_goals exact absurd hbase List.not_mem_nil
      omega

end

end RpnY86.Code
