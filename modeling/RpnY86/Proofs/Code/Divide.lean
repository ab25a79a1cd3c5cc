import RpnY86.Proofs.Code.Signs
import RpnY86.Proofs.Code.Traces

/-! # Division

The code of a division computes the quotient of words, truncated toward zero (`leads_divide`), and
goes to its handler with both operands still on the stack if the divisor is zero
(`leads_divide_zero`).

Remainder and divisor are kept as negated words. With `R` the remainder and `B` the divisor as
numbers, one pass of the outer loop takes the largest `B * 2 ^ j` that is at most `R` away
(`leads_divDouble`). What is left is less than half of `R`, and so there are at most 32 passes
(`leads_divLoop`). The traces of all parts say how often the loops are passed. -/

namespace RpnY86.Code

open Y86 (AluOp Condition Flags Instruction Reg Registers signed)
open Y86.Condition (holds_flags_and_self holds_flags_e holds_flags_sub)

/-! ### Words -/

theorem negWord_add (j k : Nat) : negWord (j + k) = negWord j + negWord k := by
  simp only [negWord, UInt32.ofNat_add]
  grind

theorem tdiv_eq_natAbs_div (m n : Int) :
    m.tdiv n = if (m < 0 ↔ n < 0) then ((m.natAbs / n.natAbs : Nat) : Int)
      else -((m.natAbs / n.natAbs : Nat) : Int) := by
  obtain ⟨j, rfl | rfl⟩ := Int.eq_nat_or_neg m <;> obtain ⟨k, rfl | rfl⟩ := Int.eq_nat_or_neg n <;>
    simp only [Int.neg_tdiv, Int.tdiv_neg, Int.ofNat_tdiv, Int.natAbs_neg, Int.natAbs_natCast] <;>
    grind [Int.tdiv_zero, Int.zero_tdiv]

theorem toUInt32_div_eq (x y : UInt32) :
    (x.toInt32 / y.toInt32).toUInt32 =
      if signed (x ^^^ y) < 0 then negWord ((signed x).natAbs / (signed y).natAbs)
      else UInt32.ofNat ((signed x).natAbs / (signed y).natAbs) := by
  have hdiv : signed (x.toInt32 / y.toInt32).toUInt32 =
      ((signed x).tdiv (signed y)).bmod (2 ^ 32) := Int32.toInt_div x.toInt32 y.toInt32
  apply Y86.signed_inj.1
  rw [hdiv, tdiv_eq_natAbs_div]
  simp only [signed_xor_neg_iff]
  by_cases h : signed x < 0 ↔ signed y < 0
  · rw [if_pos h, if_neg (not_not.2 h), Y86.signed_ofNat]
  · rw [if_neg h, if_pos h, negWord, Y86.signed_neg_ofNat]

namespace Site

variable {S : Site} {a si di d p c m x y s : UInt32} {st : OperandStack} {R B C Q : Nat}

/-! ### Traces -/

/-- A trace in a loop that begins at `i`, before its end at `t`: at most `n` addresses, and at most
`k` times the first one. -/
structure Doubles (i t : UInt32) (n k : Nat) (trace : List UInt32) : Prop where
  length : trace.length ≤ n
  count : trace.count i ≤ k
  outside : t ∉ trace

/-- A trace that does not pass `i` and `t`. -/
structure Quiet (i t : UInt32) (n : Nat) (trace : List UInt32) : Prop where
  length : trace.length ≤ n
  first : i ∉ trace
  last : t ∉ trace

/-- A pass of the outer loop. -/
structure Pass (i t : UInt32) (n : Nat) (trace : List UInt32) : Prop where
  length : trace.length ≤ n
  split : ∃ l m, trace = l ++ t :: m ∧ t ∉ l ∧ l.count i ≤ 32 ∧ i ∉ m ∧ t ∉ m

/-- At most `k` passes of the outer loop. -/
structure Passes (i t : UInt32) (n k : Nat) (trace : List UInt32) : Prop where
  length : trace.length ≤ n
  paced : ∃ j ≤ k, Paced 32 i t j trace

section traces

variable {i t : UInt32} {n k n' k' : Nat} {u v : List UInt32}

theorem Doubles.append (h : Doubles i t n k u) (h' : Doubles i t n' k' v) :
    Doubles i t (n + n') (k + k') (u ++ v) where
  length := by rw [List.length_append]; exact Nat.add_le_add h.length h'.length
  count := by rw [List.count_append]; exact Nat.add_le_add h.count h'.count
  outside := by rw [List.mem_append]; exact not_or.mpr ⟨h.outside, h'.outside⟩

theorem Doubles.mono (h : Doubles i t n k u) (hn : n ≤ n') (hk : k ≤ k') : Doubles i t n' k' u :=
  ⟨h.length.trans hn, h.count.trans hk, h.outside⟩

theorem Quiet.doubles (h : Quiet i t n u) : Doubles i t n 0 u :=
  ⟨h.length, (List.count_eq_zero.mpr h.first).le, h.last⟩

theorem Quiet.passes (h : Quiet i t n u) (k : Nat) : Passes i t n k u :=
  ⟨h.length, 0, Nat.zero_le k, .quiet h.first h.last⟩

theorem Quiet.append (h : Quiet i t n u) (h' : Quiet i t n' v) : Quiet i t (n + n') (u ++ v) where
  length := by rw [List.length_append]; exact Nat.add_le_add h.length h'.length
  first := by rw [List.mem_append]; exact not_or.mpr ⟨h.first, h'.first⟩
  last := by rw [List.mem_append]; exact not_or.mpr ⟨h.last, h'.last⟩

theorem Passes.prepend (h : Quiet i t n u) (h' : Passes i t n' k v) :
    Passes i t (n + n') k (u ++ v) := by
  obtain ⟨hlength, j, hj, hpaced⟩ := h'
  refine ⟨?_, j, hj, hpaced.prepend h.first h.last⟩
  rw [List.length_append]
  exact Nat.add_le_add h.length hlength

theorem Passes.append (h : Passes i t n k u) (h' : Quiet i t n' v) :
    Passes i t (n + n') k (u ++ v) := by
  obtain ⟨hlength, j, hj, hpaced⟩ := h
  refine ⟨?_, j, hj, hpaced.append h'.first h'.last⟩
  rw [List.length_append]
  exact Nat.add_le_add hlength h'.length

theorem Passes.mono (h : Passes i t n k u) (hn : n ≤ n') (hk : k ≤ k') : Passes i t n' k' u := by
  obtain ⟨hlength, j, hj, hpaced⟩ := h
  exact ⟨hlength.trans hn, j, hj.trans hk, hpaced⟩

theorem Pass.append (h : Pass i t n u) (h' : Passes i t n' k v) :
    Passes i t (n + n') (k + 1) (u ++ v) := by
  obtain ⟨hu, l, m, rfl, hl, hb, hi, ht⟩ := h
  obtain ⟨hv, j, hj, hpaced⟩ := h'
  refine ⟨?_, j + 1, Nat.succ_le_succ hj, ?_⟩
  · rw [List.length_append]
    exact Nat.add_le_add hu hv
  · rw [List.append_assoc, List.cons_append]
    exact .pass hl hb hi ht hpaced

theorem Leads.quiet {P P' : View → Prop} (h : (S.only fun c => c ≠ i ∧ c ≠ t).Leads n P P')
    (hP : ∃ v, P v) : S.LeadsBy (Quiet i t n) P P' := by
  refine (h.of_only hP).mono fun u hu => ⟨hu.1, fun hi => ?_, fun ht => ?_⟩
  · exact (hu.2 i hi).1 rfl
  · exact (hu.2 t ht).2 rfl

end traces

/-! ### Doubling -/

/-- A view in the inner loop, with a multiple of the divisor in `%ecx` and its factor in `%edx`. -/
structure Doubling (pc d : UInt32) (st : OperandStack) (ρ : Registers) (m : UInt32) (v : View) :
    Prop extends Working pc d st ρ v where
  edx : v.registers.get .edx = m

/-- A view in the inner loop that has a word in `%ebp`, too. -/
structure Doubled (pc d : UInt32) (st : OperandStack) (ρ : Registers) (m e : UInt32) (v : View) :
    Prop extends Doubling pc d st ρ m v where
  ebp : v.registers.get .ebp = e

/-- The code of the inner loop, from `a` on. It ends at `t`. -/
structure DoubleCode (S : Site) (a t : UInt32) : Prop where
  copy : S.code a (.move .always .ecx .ebp)
  double : S.code (a + 2) (.alu .add .ebp .ebp)
  test : S.code (a + 2 + 2) (.alu .and .ebp .ebp)
  wrapped : S.code (a + 2 + 2 + 2) (.jump .ge t)
  compare : S.code (a + 2 + 2 + 2 + 5) (.alu .sub .ebx .ebp)
  exceeds : S.code (a + 2 + 2 + 2 + 5 + 2) (.jump .l t)
  restore : S.code (a + 2 + 2 + 2 + 5 + 2 + 5) (.alu .add .ebx .ebp)
  keep : S.code (a + 2 + 2 + 2 + 5 + 2 + 5 + 2) (.move .always .ebp .ecx)
  factor : S.code (a + 2 + 2 + 2 + 5 + 2 + 5 + 2 + 2) (.alu .add .edx .edx)
  again : S.code (a + 2 + 2 + 2 + 5 + 2 + 5 + 2 + 2 + 2) (.jump .always a)
  next : a + 2 + 2 + 2 + 5 + 2 + 5 + 2 + 2 + 2 + 5 = t

namespace DoubleCode

variable {t : UInt32} {ρ : Registers}

theorem leads_double (h : S.DoubleCode a t) :
    S.LeadsBy (Doubles a t 4 1) (Doubling a d st ρ m)
      (Doubled (if 0 ≤ signed (ρ.ecx + ρ.ecx) then t else a + 2 + 2 + 2 + 5) d st ρ m
        (ρ.ecx + ρ.ecx)) := by
  have hge : _ ↔ 0 ≤ signed (ρ.ecx + ρ.ecx) := holds_flags_and_self .ge (ρ.ecx + ρ.ecx)
  have htrace : Doubles a t 4 1 [a, a + 2, a + 2 + 2, a + 2 + 2 + 2] := by
    rw [← h.next]
    exact ⟨Nat.le_refl 4, by simp [add_assoc], by simp [add_assoc]⟩
  refine ⟨_, htrace, ?_⟩
  rintro ⟨_, r, f, _, _⟩ ⟨⟨rfl, rfl, rfl, hr⟩, rfl⟩
  have hc : r.get .ecx = ρ.ecx := hr .ecx rfl
  refine ⟨_, .step h.copy (.move .always .ecx .ebp (by decide) (by decide)) (.step h.double
    (.alu .add .ebp .ebp (by decide) (by decide)) (.step h.test
    (.alu .and .ebp .ebp (by decide) (by decide)) (.step h.wrapped (.jump .ge t)
    (.refl _)))), ?_⟩
  refine ⟨⟨⟨if_congr ?_ rfl rfl, rfl, rfl, fun q hq => ?_⟩, ?_⟩, ?_⟩
  · rw [← hge, ← hc]
    rfl
  · have hebp : q ≠ .ebp := by rintro rfl; exact nomatch hq
    simp [Condition.holds, hebp, hr q hq]
  · simp [Condition.holds]
  · simp [Condition.holds, AluOp.result, hc]

theorem leads_compare (h : S.DoubleCode a t) {e : UInt32} :
    S.LeadsBy (Doubles a t 2 0) (Doubled (a + 2 + 2 + 2 + 5) d st ρ m e)
      (Doubled (if signed e < signed ρ.ebx then t else a + 2 + 2 + 2 + 5 + 2 + 5) d st ρ m
        (e - ρ.ebx)) := by
  have hl : _ ↔ signed e < signed ρ.ebx := holds_flags_sub .l ρ.ebx e
  have htrace : Doubles a t 2 0 [a + 2 + 2 + 2 + 5, a + 2 + 2 + 2 + 5 + 2] := by
    rw [← h.next]
    exact ⟨Nat.le_refl 2, by simp [add_assoc], by simp [add_assoc]⟩
  refine ⟨_, htrace, ?_⟩
  rintro ⟨_, r, f, _, _⟩ ⟨⟨⟨rfl, rfl, rfl, hr⟩, rfl⟩, rfl⟩
  have hb : r.get .ebx = ρ.ebx := hr .ebx rfl
  refine ⟨_, .step h.compare (.alu .sub .ebx .ebp (by decide) (by decide)) (.step h.exceeds
    (.jump .l t) (.refl _)), ?_⟩
  refine ⟨⟨⟨if_congr ?_ rfl rfl, rfl, rfl, fun q hq => ?_⟩, ?_⟩, ?_⟩
  · rw [← hl, ← hb]
  · have hebp : q ≠ .ebp := by rintro rfl; exact nomatch hq
    simp [hebp, hr q hq]
  · simp
  · simp [AluOp.result, hb]

theorem leads_keep (h : S.DoubleCode a t) {e : UInt32} :
    S.LeadsBy (Doubles a t 4 0) (Doubled (a + 2 + 2 + 2 + 5 + 2 + 5) d st ρ m (e - ρ.ebx))
      (Doubling a d st (ρ.set .ecx e) (m + m)) := by
  have h1 := h.restore
  have h2 := h.keep
  have h3 := h.factor
  have h4 := h.again
  have htrace : Doubles a t 4 0 [a + 2 + 2 + 2 + 5 + 2 + 5, a + 2 + 2 + 2 + 5 + 2 + 5 + 2,
      a + 2 + 2 + 2 + 5 + 2 + 5 + 2 + 2, a + 2 + 2 + 2 + 5 + 2 + 5 + 2 + 2 + 2] := by
    rw [← h.next]
    exact ⟨Nat.le_refl 4, by simp [add_assoc], by simp [add_assoc]⟩
  generalize a + 2 + 2 + 2 + 5 + 2 + 5 = b at h1 h2 h3 h4 htrace ⊢
  refine ⟨_, htrace, ?_⟩
  rintro ⟨_, r, f, _, _⟩ ⟨⟨⟨rfl, rfl, rfl, hr⟩, rfl⟩, he⟩
  have hb : r.get .ebx = ρ.ebx := hr .ebx rfl
  have hsum : r.get .ebp + r.get .ebx = e := by
    have he' : r.get .ebp = e - ρ.ebx := he
    rw [he', hb, UInt32.sub_add_cancel]
  refine ⟨_, .step h1 (.alu .add .ebx .ebp (by decide) (by decide)) (.step h2
    (.move .always .ebp .ecx (by decide) (by decide)) (.step h3
    (.alu .add .edx .edx (by decide) (by decide)) (.step h4 (.jump .always a) (.refl _)))), ?_⟩
  refine ⟨⟨rfl, rfl, rfl, fun q hq => ?_⟩, ?_⟩
  · have hebp : q ≠ .ebp := by rintro rfl; exact nomatch hq
    have hedx : q ≠ .edx := by rintro rfl; exact nomatch hq
    by_cases hecx : q = .ecx
    · simp [Condition.holds, hecx, AluOp.result, hsum]
    · simp [Condition.holds, hebp, hedx, hecx, hr q hq]
  · simp [Condition.holds, AluOp.result]

/-- The loop ends once doubling would exceed the remainder. -/
theorem leads_done (h : S.DoubleCode a t) (hCR : C ≤ R) (hR : R ≤ 2 ^ 31) (hlt : R < 2 * C) :
    S.LeadsBy (Doubles a t 6 1) (Doubling a d st (work si di p (negWord R) (negWord C)) m)
      (Doubling t d st (work si di p (negWord R) (negWord C)) m) := by
  have hdouble : S.LeadsBy (Doubles a t 4 1)
      (Doubling a d st (work si di p (negWord R) (negWord C)) m) _ :=
    h.leads_double
  have h2C : negWord C + negWord C = negWord (2 * C) := by rw [Nat.two_mul, negWord_add]
  simp only [work, h2C] at hdouble
  by_cases hwrap : 2 ^ 31 < 2 * C
  · have hs : 0 ≤ signed (negWord (2 * C)) := by
      rw [negWord, Y86.signed_neg_ofNat, ← Int.add_bmod_right, Int.bmod_eq_of_le]
      all_goals omega
    rw [if_pos hs] at hdouble
    exact (hdouble.mono fun _ h => h.mono (by omega) le_rfl).weaken fun _ hv => hv.toDoubling
  · have hs : signed (negWord (2 * C)) = -((2 * C : Nat) : Int) := signed_negWord (by omega)
    have hs' : signed (negWord R) = -(R : Int) := signed_negWord hR
    rw [if_neg (by omega)] at hdouble
    have hcompare := hdouble.trans h.leads_compare fun _ _ => Doubles.append
    rw [if_pos (show signed (negWord (2 * C)) < signed (negWord R) by omega)] at hcompare
    exact hcompare.weaken fun _ hv => hv.toDoubling

/-- A pass of the loop doubles. -/
theorem leads_again (h : S.DoubleCode a t) (hC : 0 < C) (hR : R ≤ 2 ^ 31) (hle : 2 * C ≤ R) :
    S.LeadsBy (Doubles a t 10 1) (Doubling a d st (work si di p (negWord R) (negWord C)) m)
      (Doubling a d st (work si di p (negWord R) (negWord (2 * C))) (m + m)) := by
  have hdouble : S.LeadsBy (Doubles a t 4 1)
      (Doubling a d st (work si di p (negWord R) (negWord C)) m) _ :=
    h.leads_double
  have h2C : negWord C + negWord C = negWord (2 * C) := by rw [Nat.two_mul, negWord_add]
  have hs : signed (negWord (2 * C)) = -((2 * C : Nat) : Int) := signed_negWord (by omega)
  have hs' : signed (negWord R) = -(R : Int) := signed_negWord hR
  simp only [work, h2C] at hdouble
  rw [if_neg (by omega)] at hdouble
  have hcompare := hdouble.trans h.leads_compare fun _ _ => Doubles.append
  rw [if_neg (show ¬ signed (negWord (2 * C)) < signed (negWord R) by omega)] at hcompare
  exact hcompare.trans h.leads_keep fun _ _ => Doubles.append

/-- **Doubling** finds the largest multiple of the divisor by a power of two. -/
theorem leads_divDouble (h : S.DoubleCode a t) {k : Nat} (hC : 0 < C) (hCR : C ≤ R)
    (hR : R ≤ 2 ^ 31) (hk : R < C * 2 ^ k) (m : Nat) :
    ∃ j, C * 2 ^ j ≤ R ∧ R < 2 * (C * 2 ^ j) ∧
      S.LeadsBy (Doubles a t (10 * k) k)
        (Doubling a d st (work si di p (negWord R) (negWord C)) (UInt32.ofNat m))
        (Doubling t d st (work si di p (negWord R) (negWord (C * 2 ^ j)))
          (UInt32.ofNat (m * 2 ^ j))) := by
  induction k generalizing C m with
  | zero => omega
  | succ k ih =>
    by_cases hlt : R < 2 * C
    · refine ⟨0, by omega, by omega, ?_⟩
      rw [Nat.pow_zero, Nat.mul_one, Nat.mul_one]
      exact (h.leads_done hCR hR hlt).mono fun _ h => h.mono (by omega) (by omega)
    · have hpow (i : Nat) : C * 2 ^ (i + 1) = 2 * C * 2 ^ i := by rw [Nat.pow_succ]; ac_rfl
      have hpow' (i : Nat) : m * 2 ^ (i + 1) = (m + m) * 2 ^ i := by
        rw [Nat.pow_succ, ← Nat.two_mul]
        ac_rfl
      rw [hpow] at hk
      obtain ⟨j, hj, hj', hdouble⟩ := ih (C := 2 * C) (by omega) (by omega) hk (m + m)
      refine ⟨j + 1, ?_⟩
      rw [hpow, hpow']
      rw [UInt32.ofNat_add] at hdouble
      refine ⟨hj, hj', (h.leads_again hC hR (by omega)).trans hdouble fun _ _ h h' => ?_⟩
      exact (h.append h').mono (by omega) (by omega)

end DoubleCode

/-! ### The outer loop -/

/-- The code of the outer loop, from `a` on, around the inner loop at `i`. It ends at `e`. -/
structure DivideCode (S : Site) (a i t e : UInt32) : Prop where
  inner : S.DoubleCode i t
  divisor : S.code a (.load 0 (some .esp) .ecx)
  copy : S.code (a + 6) (.move .always .ebx .edx)
  compare : S.code (a + 6 + 2) (.alu .sub .ecx .edx)
  less : S.code (a + 6 + 2 + 2) (.jump .g e)
  one : S.code (a + 6 + 2 + 2 + 5) (.constant 1 .edx)
  next : a + 6 + 2 + 2 + 5 + 6 = i
  take : S.code t (.alu .sub .ecx .ebx)
  count : S.code (t + 2) (.alu .add .edx .eax)
  again : S.code (t + 2 + 2) (.jump .always a)
  exit : t + 2 + 2 + 5 = e

namespace DivideCode

variable {i t e : UInt32}

theorem quiet_compare (h : S.DivideCode a i t e) :
    Quiet i t 4 [a, a + 6, a + 6 + 2, a + 6 + 2 + 2] := by
  rw [← h.inner.next, ← h.next]
  exact ⟨Nat.le_refl 4, by simp [add_assoc], by simp [add_assoc]⟩

theorem leads_compare (h : S.DivideCode a i t e) :
    S.LeadsBy (Quiet i t 4) (Working a d (y :: st) (work si di p x c))
      (Working (if signed y < signed x then e else a + 6 + 2 + 2 + 5) d (y :: st)
        (work si di p x y)) := by
  have hg : _ ↔ signed y < signed x := holds_flags_sub .g y x
  refine leadsBy_working h.quiet_compare fun r f hr => ?_
  have hb : r.get .ebx = x := hr .ebx rfl
  refine ⟨_, .step h.divisor (.loadTop .ecx (by decide)) (.step h.copy
    (.move .always .ebx .edx (by decide) (by decide)) (.step h.compare
    (.alu .sub .ecx .edx (by decide) (by decide)) (.step h.less (.jump .g e) (.refl _)))), ?_⟩
  refine ⟨if_congr ?_ rfl rfl, rfl, rfl, fun q hq => ?_⟩
  · rw [← hg, ← hb]
    rfl
  · have hedx : q ≠ .edx := by rintro rfl; exact nomatch hq
    by_cases hecx : q = .ecx
    · simp [Condition.holds, hecx]
    · have hset : (work si di p x y).get q = (work si di p x c).get q := by
        rw [← set_work_ecx si di p x c y, Registers.get_set, if_neg hecx]
      simp [Condition.holds, hedx, hecx, hr q hq, hset]

theorem leads_one (h : S.DivideCode a i t e) {ρ : Registers} :
    S.LeadsBy (Quiet i t 1) (Working (a + 6 + 2 + 2 + 5) d st ρ) (Doubling i d st ρ 1) := by
  have htrace : Quiet i t 1 [a + 6 + 2 + 2 + 5] := by
    rw [← h.inner.next, ← h.next]
    exact ⟨Nat.le_refl 1, by simp [add_assoc], by simp [add_assoc]⟩
  refine leadsBy_working htrace fun r f hr => ?_
  refine ⟨_, .step h.one (.constant 1 .edx (by decide)) (.refl _), ?_⟩
  refine ⟨⟨h.next, rfl, rfl, fun q hq => ?_⟩, ?_⟩
  · have hedx : q ≠ .edx := by rintro rfl; exact nomatch hq
    simp [hedx, hr q hq]
  · simp

theorem leads_take (h : S.DivideCode a i t e) :
    S.LeadsBy (· = [t, t + 2, t + 2 + 2]) (Doubling t d st (work si di p x y) m)
      (Working a d st (work si di (p + m) (x - y) y)) := by
  refine ⟨_, rfl, ?_⟩
  rintro ⟨_, r, f, _, _⟩ ⟨⟨rfl, rfl, rfl, hr⟩, rfl⟩
  have ha : r.get .eax = p := hr .eax rfl
  have hb : r.get .ebx = x := hr .ebx rfl
  have hc : r.get .ecx = y := hr .ecx rfl
  refine ⟨_, .step h.take (.alu .sub .ecx .ebx (by decide) (by decide)) (.step h.count
    (.alu .add .edx .eax (by decide) (by decide)) (.step h.again (.jump .always a)
    (.refl _))), ?_⟩
  refine ⟨rfl, rfl, rfl, fun q hq => ?_⟩
  cases q with
  | eax => simp [AluOp.result, ha]
  | ebx => simp [AluOp.result, hb, hc]
  | ecx => exact hc
  | esi => exact hr .esi rfl
  | edi => exact hr .edi rfl
  | edx | esp | ebp => cases hq

/-- A remainder below the divisor ends the loop. -/
theorem leads_exit (h : S.DivideCode a i t e) (hB : B ≤ 2 ^ 31) (hlt : R < B) :
    S.LeadsBy (Quiet i t 4) (Working a d (negWord B :: st) (work si di p (negWord R) c))
      (Working e d (negWord B :: st) (work si di p (negWord R) (negWord B))) := by
  have hcompare : S.LeadsBy (Quiet i t 4)
      (Working a d (negWord B :: st) (work si di p (negWord R) c)) _ := h.leads_compare
  rwa [signed_negWord hB, signed_negWord (by omega), if_pos (by omega)] at hcompare

/-- A pass takes away more than half of the remainder. -/
theorem leads_divPass (h : S.DivideCode a i t e) (hB : 0 < B) (hBR : B ≤ R) (hR : R ≤ 2 ^ 31) :
    ∃ j, B * 2 ^ j ≤ R ∧ R < 2 * (B * 2 ^ j) ∧
      S.LeadsBy (Pass i t 328)
        (Working a d (negWord B :: st) (work si di (UInt32.ofNat Q) (negWord R) c))
        (Working a d (negWord B :: st) (work si di (UInt32.ofNat (Q + 2 ^ j))
          (negWord (R - B * 2 ^ j)) (negWord (B * 2 ^ j)))) := by
  have hcompare : S.LeadsBy (Quiet i t 4)
      (Working a d (negWord B :: st) (work si di (UInt32.ofNat Q) (negWord R) c)) _ :=
    h.leads_compare
  rw [signed_negWord (by omega), signed_negWord hR, if_neg (by omega)] at hcompare
  obtain ⟨j, hj, hj', hdouble⟩ := h.inner.leads_divDouble (k := 32) hB hBR hR (by omega) 1
  have hfound := (hcompare.trans h.leads_one fun _ _ => Quiet.append).trans hdouble
    fun _ _ h h' => h.doubles.append h'
  have htake := hfound.trans (V := Pass i t 328) h.leads_take ?_
  swap
  · rintro l _ hl rfl
    refine ⟨?_, l, [t + 2, t + 2 + 2], rfl, hl.outside, hl.count, ?_, ?_⟩
    · have := hl.length
      rw [List.length_append, List.length_cons, List.length_cons, List.length_singleton]
      omega
    · rw [← h.inner.next]
      simp [add_assoc]
    · simp [add_assoc]
  have hsub : negWord R - negWord (B * 2 ^ j) = negWord (R - B * 2 ^ j) := by
    have := negWord_add (R - B * 2 ^ j) (B * 2 ^ j)
    rw [Nat.sub_add_cancel hj] at this
    rw [this, UInt32.add_sub_cancel]
  rw [Nat.one_mul, ← UInt32.ofNat_add, hsub] at htake
  exact ⟨j, hj, hj', htake⟩

/-- **The outer loop** divides: it adds the quotient of the remainder to what it has, and keeps what
is left. The number of its passes is logarithmic in the quotient. -/
theorem leads_divLoop (h : S.DivideCode a i t e) {k : Nat} (hB : 0 < B) (hB' : B ≤ 2 ^ 31)
    (hR : R ≤ 2 ^ 31) (hk : R < B * 2 ^ k) :
    S.LeadsBy (Passes i t (328 * k + 4) k)
      (Working a d (negWord B :: st) (work si di (UInt32.ofNat Q) (negWord R) c))
      (Working e d (negWord B :: st)
        (work si di (UInt32.ofNat (Q + R / B)) (negWord (R % B)) (negWord B))) := by
  have hexit {c : UInt32} {Q R : Nat} (hlt : R < B) : S.LeadsBy (Quiet i t 4)
      (Working a d (negWord B :: st) (work si di (UInt32.ofNat Q) (negWord R) c))
      (Working e d (negWord B :: st)
        (work si di (UInt32.ofNat (Q + R / B)) (negWord (R % B)) (negWord B))) := by
    rw [Nat.div_eq_of_lt hlt, Nat.mod_eq_of_lt hlt, Nat.add_zero]
    exact h.leads_exit hB' hlt
  induction k generalizing Q R c with
  | zero => exact (hexit (by omega)).mono fun _ h => h.passes 0
  | succ k ih =>
    by_cases hlt : R < B
    · exact (hexit hlt).mono fun _ h => (h.passes _).mono (by omega) le_rfl
    · obtain ⟨j, hj, hj', hpass⟩ := h.leads_divPass hB (Nat.le_of_not_lt hlt) hR
      have hhalf : R - B * 2 ^ j < B * 2 ^ k := by
        rw [Nat.pow_succ, ← Nat.mul_assoc] at hk
        omega
      have hrest := ih (c := negWord (B * 2 ^ j)) (Q := Q + 2 ^ j) (by omega) hhalf
      have hsplit : R = R - B * 2 ^ j + B * 2 ^ j := by omega
      have hdiv : R / B = (R - B * 2 ^ j) / B + 2 ^ j := by
        rw [← Nat.add_mul_div_left _ _ hB, ← hsplit]
      have hmod : R % B = (R - B * 2 ^ j) % B := by
        rw [← Nat.add_mul_mod_self_left (R - B * 2 ^ j) B (2 ^ j), ← hsplit]
      have hsum : Q + R / B = Q + 2 ^ j + (R - B * 2 ^ j) / B := by omega
      rw [hsum, hmod]
      refine hpass.trans hrest fun _ _ h h' => ?_
      exact (h.append h').mono (by omega) le_rfl

end DivideCode

/-! ### The operation -/

theorem divideCode_of_placed {n : Int} (hp : S.Placed a (divideLoop n)) {z : UInt32}
    (hz : S.labels.address? (divDone n) = some z) :
    ∃ i t e, S.labels.address? (localLabel "div_double" n) = some i ∧
      S.labels.address? (localLabel "div_take" n) = some t ∧
      S.code a (.push .ecx) ∧ S.DivideCode (a + 2) i t e ∧ S.code e (.pop .edx) ∧
      S.code (e + 2) (.pop .edx) ∧ S.code (e + 2 + 2) (.alu .and .edx .edx) ∧
      S.code (e + 2 + 2 + 2) (.jump .ge z) ∧ behind a (divideLoop n) = e + 2 + 2 + 2 + 5 := by
  have hend : behind a (divideLoop n) = a + 2 + 6 + 2 + 2 + 5 + 6 + 2 + 2 + 2 + 5 + 2 + 5 + 2 + 2 +
      2 + 5 + 2 + 2 + 5 + 2 + 2 + 2 + 5 := by
    simp [divideLoop, loadAt, copy, goto, setTo, Instruction.length]
  have h0 : UInt32.ofInt 0 = 0 := rfl
  simp [divideLoop, loadAt, copy, goto, setTo, resolve?, Ref.resolve?, Instruction.length, hz,
    h0] at hp
  obtain ⟨i, hi⟩ : ∃ i, a + 2 + 6 + 2 + 2 + 5 + 6 = i := ⟨_, rfl⟩
  obtain ⟨t, ht⟩ : ∃ t, i + 2 + 2 + 2 + 5 + 2 + 5 + 2 + 2 + 2 + 5 = t := ⟨_, rfl⟩
  obtain ⟨e, he⟩ : ∃ e, t + 2 + 2 + 5 = e := ⟨_, rfl⟩
  simp only [hi, ht, he] at hp hend
  obtain ⟨h1, hl, h2, h3, h4, ⟨e', he', h5⟩, h6, hi', h7, h8, h9, ⟨t', ht', h10⟩, h11,
    ⟨t'', ht'', h12⟩, h13, h14, h15, ⟨i', hi'', h16⟩, htake, h17, h18, ⟨l', hl', h19⟩, hsign, h20,
    h21, h22, h23⟩ := hp
  obtain rfl := Option.some.inj (hsign.symm.trans he')
  obtain rfl := Option.some.inj (htake.symm.trans ht')
  obtain rfl := Option.some.inj (htake.symm.trans ht'')
  obtain rfl := Option.some.inj (hi'.symm.trans hi'')
  obtain rfl := Option.some.inj (hl.symm.trans hl')
  exact ⟨i, t, e, hi', htake, h1, ⟨⟨h7, h8, h9, h10, h11, h12, h13, h14, h15, h16, ht⟩, h2, h3, h4,
    h5, h6, hi, h17, h18, h19, he⟩, h20, h21, h22, h23, hend⟩

theorem leads_divideLoop {n : Int} (hp : S.Placed a (divideLoop n)) {z i t : UInt32}
    (hz : S.labels.address? (divDone n) = some z)
    (hi : S.labels.address? (localLabel "div_double" n) = some i)
    (ht : S.labels.address? (localLabel "div_take" n) = some t)
    (hroom : 4 * (st.length + 2) ≤ S.capacity)
    (hB : 0 < B) (hB' : B ≤ 2 ^ 31) (hR : R ≤ 2 ^ 31) :
    S.LeadsBy (Passes i t 10505 32) (Working a d (s :: st) (work si di 0 (negWord R) (negWord B)))
      (Working (if 0 ≤ signed s then z else behind a (divideLoop n)) d st
        (work si di (UInt32.ofNat (R / B)) (negWord (R % B)) (negWord B))) := by
  obtain ⟨i', t', e, hi', ht', h1, hcode, h2, h3, h4, h5, hend⟩ := divideCode_of_placed hp hz
  obtain rfl := Option.some.inj (hi.symm.trans hi')
  obtain rfl := Option.some.inj (ht.symm.trans ht')
  have before : Quiet i t 1 [a] := by
    rw [← hcode.inner.next, ← hcode.next]
    exact ⟨Nat.le_refl 1, by simp [add_assoc], by simp [add_assoc]⟩
  have after : Quiet i t 4 [e, e + 2, e + 2 + 2, e + 2 + 2 + 2] := by
    rw [← hcode.exit, ← hcode.inner.next]
    exact ⟨Nat.le_refl 4, by simp [add_assoc], by simp [add_assoc]⟩
  have away {c : UInt32} (hc : c ∈ [e, e + 2, e + 2 + 2, e + 2 + 2 + 2]) : c ≠ i ∧ c ≠ t :=
    ⟨fun h => after.first (h ▸ hc), fun h => after.last (h ▸ hc)⟩
  have hpush : S.LeadsBy (Quiet i t 1)
      (Working a d (s :: st) (work si di 0 (negWord R) (negWord B)))
      (Working (a + 2) d (negWord B :: s :: st) (work si di (UInt32.ofNat 0)
        (negWord R) (negWord B))) := by
    refine leadsBy_working before fun r f hr => ?_
    refine ⟨_, .step h1 (.push .ecx (by decide) (by exact hroom)) (.refl _), ?_⟩
    exact ⟨rfl, rfl, congrArg (· :: s :: st) (hr .ecx rfl), hr⟩
  have hdrop {ρ : Registers} : S.LeadsBy (Quiet i t 1) (Working e d (negWord B :: s :: st) ρ)
      (Working (e + 2) d (s :: st) ρ) := by
    have htrace : Quiet i t 1 [e] := by
      have he := away (List.mem_cons_self ..)
      refine ⟨Nat.le_refl 1, ?_, ?_⟩
      · rw [List.mem_singleton]; exact he.1.symm
      · rw [List.mem_singleton]; exact he.2.symm
    refine leadsBy_working htrace fun r f hr => ?_
    refine ⟨_, .step h2 (.pop .edx (by decide)) (.refl _), ?_⟩
    refine ⟨rfl, rfl, rfl, fun q hq => ?_⟩
    have hedx : q ≠ .edx := by rintro rfl; exact nomatch hq
    simp [hedx, hr q hq]
  have htake {ρ : Registers} : S.LeadsBy (Quiet i t 3) (Working (e + 2) d (s :: st) ρ) _ :=
    (leads_takeSign (S := S.only fun c => c ≠ i ∧ c ≠ t) ⟨h3, away (by simp)⟩ ⟨h4, away (by simp)⟩
      ⟨h5, away (by simp)⟩).quiet (exists_working ..)
  have hloop := (hpush.trans (hcode.leads_divLoop (k := 32) hB hB' hR (by omega))
    fun _ _ => Passes.prepend).trans hdrop fun _ _ => Passes.append
  have hsign := hloop.trans htake fun _ _ => Passes.append
  have hge : _ ↔ 0 ≤ signed s := holds_flags_and_self .ge s
  rw [Nat.zero_add] at hsign
  simp only [hge, ← hend] at hsign
  exact hsign

/-- The divisor is looked at before anything is taken from the stack. -/
theorem leads_divisor {n : Int} (hp : S.Placed a (divideOperands n)) {z : UInt32}
    (hz : S.labels.address? divideByZero = some z) :
    S.Leads 3 (At a si di d (y :: st))
      (At (if y = 0 then z else a + 6 + 2 + 5) si di d (y :: st)) := by
  have h0 : UInt32.ofInt 0 = 0 := rfl
  simp [divideOperands, loadAt, copy, goto, resolve?, Ref.resolve?, Instruction.length, hz,
    h0] at hp
  obtain ⟨h1, h2, h3, -⟩ := hp
  refine leads_at [a, a + 6, a + 6 + 2] (Nat.le_refl 3) fun r f hsi hdi => ?_
  refine ⟨_, .step h1 (.loadTop .ecx (by decide)) (.step h2
    (.alu .and .ecx .ecx (by decide) (by decide)) (.step h3 (.jump .e z) (.refl _))), ?_⟩
  refine ⟨if_congr ?_ rfl rfl, rfl, rfl, hsi, hdi⟩
  simp [holds_flags_e, AluOp.result]

/-- Both operands are taken from the stack. If the dividend is zero, the quotient is there at
once. -/
theorem leads_divideOperands {n : Int} (hp : S.Placed a (divideOperands n)) {z e : UInt32}
    (hz : S.labels.address? divideByZero = some z) (he : S.labels.address? (divDone n) = some e)
    (hroom : 4 * (st.length + 1) ≤ S.capacity) (hy : y ≠ 0) :
    S.Leads 11 (At a si di d (y :: x :: st))
      (if x = 0 then Working e d st (work si di 0 x y)
        else Working (behind a (divideOperands n)) d ((x ^^^ y) :: st) (work si di 0 x y)) := by
  have hend : behind a (divideOperands n) = a + 6 + 2 + 5 + 2 + 2 + 2 + 2 + 5 + 2 + 2 + 2 := by
    simp [divideOperands, loadAt, copy, goto, Instruction.length]
  have hdivisor : S.Leads 3 (At a si di d (y :: x :: st)) _ := leads_divisor hp hz
  simp [divideOperands, loadAt, copy, goto, resolve?, Ref.resolve?, Instruction.length, hz,
    he] at hp
  obtain ⟨-, -, -, h4, h5, h6, h7, h8, h9, h10, h11⟩ := hp
  rw [if_neg hy] at hdivisor
  have hx : S.Leads 2 (Working _ d st (work si di 0 x y)) _ := leads_testZero rfl h7 h8
  rw [get_work_ebx] at hx
  have hops := (hdivisor.trans (leads_operands h4 h5 h6)).trans hx
  by_cases hx0 : x = 0
  · rw [if_pos hx0] at hops ⊢
    exact hops.mono (by omega)
  · rw [if_neg hx0] at hops ⊢
    rw [hend]
    exact hops.trans (leads_keepSign h9 h10 h11 hroom)

/-- The part of a division before its loops. -/
def divideFront (n : Int) : List Line :=
  divideOperands n ++ nonPositive .ebx .edx (localLabel "div_neg_a" n) ++
    nonPositive .ecx .edx (localLabel "div_neg_b" n)

theorem divide_eq (n : Int) :
    divide n = divideFront n ++ divideLoop n ++ negate .eax .edx ++ pushResult (divDone n) := rfl

section front

variable {n : Int} (hp : S.Placed a (divideFront n)) {z e : UInt32}
  (hz : S.labels.address? divideByZero = some z) (he : S.labels.address? (divDone n) = some e)
  (hroom : 4 * (st.length + 1) ≤ S.capacity) (hy : y ≠ 0)

include hp hz he hroom hy

theorem leads_divideFront_zero :
    S.Leads 11 (At a si di d (y :: 0 :: st)) (Working e d st (work si di 0 0 y)) := by
  unfold divideFront at hp
  simp only [placed_append] at hp
  have hops : S.Leads 11 (At a si di d (y :: 0 :: st)) _ :=
    leads_divideOperands hp.1.1 hz he hroom hy
  rwa [if_pos rfl] at hops

/-- Before the loops there are the negated magnitudes of both operands. -/
theorem leads_divideFront (hx : x ≠ 0) :
    S.Leads 21 (At a si di d (y :: x :: st))
      (Working (behind a (divideFront n)) d ((x ^^^ y) :: st)
        (work si di 0 (negWord (signed x).natAbs) (negWord (signed y).natAbs))) := by
  unfold divideFront at hp ⊢
  simp only [placed_append, behind_append] at hp ⊢
  obtain ⟨⟨h1, h2⟩, h3⟩ := hp
  have hops : S.Leads 11 (At a si di d (y :: x :: st)) _ :=
    leads_divideOperands h1 hz he hroom hy
  rw [if_neg hx] at hops
  have hmags := (hops.trans (leads_nonPositive rfl h2)).trans (leads_nonPositive rfl h3)
  simp only [get_work_ebx, set_work_ebx, get_work_ecx, set_work_ecx,
    negMagnitude_eq_negWord] at hmags
  exact hmags

end front

/-- Behind the loops the quotient gets its sign. -/
theorem leads_divideBack {done : String} {k : Nat} {b c : UInt32}
    (hn : S.Placed a (negate .eax .edx))
    (hp : S.Placed (behind a (negate .eax .edx)) (pushResult done))
    (hroom : 4 * (st.length + 1) ≤ S.capacity) (s : UInt32) :
    S.Leads 4
      (Working (if 0 ≤ signed s then behind a (negate .eax .edx) else a) d st
        (work si di (UInt32.ofNat k) b c))
      (Left (behind (behind a (negate .eax .edx)) (pushResult done)) si di d
        ((if signed s < 0 then negWord k else UInt32.ofNat k) :: st) (some b)) := by
  by_cases hs : signed s < 0
  · rw [if_neg (by omega), if_pos hs]
    have hneg : S.Leads 3 (Working a d st (work si di (UInt32.ofNat k) b c)) _ :=
      leads_negate rfl hn
    rw [get_work_eax, set_work_eax] at hneg
    exact hneg.trans (leads_pushResult hp hroom)
  · rw [if_pos (by omega), if_neg hs]
    exact (leads_pushResult hp hroom).mono (by omega)

theorem loop_labels {n : Int} (hp : S.Placed a (divide n)) :
    S.labels.address? (localLabel "div_double" n) = some (a + 81) ∧
      S.labels.address? (localLabel "div_take" n) = some (a + 110) := by
  unfold divide at hp
  simp only [placed_append, behind_append] at hp
  obtain ⟨⟨⟨⟨⟨-, -⟩, -⟩, h4⟩, -⟩, h6⟩ := hp
  obtain ⟨i, t, e, hi, ht, -, hcode, -⟩ := divideCode_of_placed h4 ((placed_mark _).1 h6).1
  have hstart : behind (behind (behind a (divideOperands n))
      (nonPositive .ebx .edx (localLabel "div_neg_a" n)))
      (nonPositive .ecx .edx (localLabel "div_neg_b" n)) = a + 58 := by
    simp [divideOperands, nonPositive, negate, loadAt, copy, goto, Instruction.length,
      add_assoc]
  rw [hi, ht, ← hcode.inner.next, ← hcode.next, hstart]
  simp [add_assoc]

section divide

variable {n : Int} (hp : S.Placed a (divide n)) {z : UInt32}
  (hz : S.labels.address? divideByZero = some z)

include hp hz

/-- A zero divisor is noticed with both operands on the stack. -/
theorem leads_divide_zero : S.Leads 3 (At a si di d (0 :: st)) (At z si di d (0 :: st)) := by
  unfold divide at hp
  simp only [placed_append] at hp
  have h : S.Leads 3 (At a si di d (0 :: st)) _ := leads_divisor hp.1.1.1.1.1 hz
  rwa [if_pos rfl] at h

/-- **Division.** -/
theorem leadsBy_divide (hroom : 4 * (st.length + 2) ≤ S.capacity) (hy : y ≠ 0) :
    ∃ b, S.LeadsBy (Passes (a + 81) (a + 110) 10540 32) (At a si di d (y :: x :: st))
      (Left (behind a (divide n)) si di d ((x.toInt32 / y.toInt32).toUInt32 :: st)
        (some b)) := by
  obtain ⟨hi, ht⟩ := loop_labels hp
  simp only [divide_eq, placed_append, behind_append] at hp ⊢
  obtain ⟨⟨⟨hfront, hloop⟩, hneg⟩, hpush⟩ := hp
  have he := ((placed_mark _).1 hpush).1
  have hroom' : 4 * (st.length + 1) ≤ S.capacity := by omega
  -- All but the loops is placed without the two addresses.
  have hfront' := hfront.only (p := fun c => c ≠ a + 81 ∧ c ≠ a + 110)
    (by simp [divideFront, divideOperands, nonPositive, negate, loadAt, copy, goto,
      Instruction.length, add_assoc])
  have hneg' := hneg.only (p := fun c => c ≠ a + 81 ∧ c ≠ a + 110)
    (by simp [divideFront, divideOperands, divideLoop, nonPositive, negate, loadAt, copy, goto,
      setTo, Instruction.length, add_assoc])
  have hpush' := hpush.only (p := fun c => c ≠ a + 81 ∧ c ≠ a + 110)
    (by simp [divideFront, divideOperands, divideLoop, nonPositive, negate, pushResult, loadAt,
      copy, goto, setTo, Instruction.length, add_assoc])
  by_cases hx : x = 0
  · subst hx
    have hpushed := ((leads_divideFront_zero hfront' hz he hroom' hy).trans
      (leads_pushResult hpush' hroom')).quiet (exists_at a si di d _)
    have hzero : ((0 : UInt32).toInt32 / y.toInt32).toUInt32 = 0 := by
      have hs : signed 0 = 0 := rfl
      rw [toUInt32_div_eq, hs]
      simp [negWord]
    rw [hzero]
    exact ⟨0, hpushed.mono fun _ h => (h.passes 32).mono (by omega) le_rfl⟩
  · have hmags := (leads_divideFront hfront' hz he hroom' hy hx).quiet (exists_at a si di d _)
    have hy' : signed y ≠ 0 := fun h => hy (Y86.signed_inj.1 h)
    have := Y86.le_signed x
    have := Y86.signed_lt x
    have := Y86.le_signed y
    have := Y86.signed_lt y
    have hquotient := hmags.trans
      (leads_divideLoop hloop he hi ht hroom (by omega) (by omega) (by omega))
      fun _ _ => Passes.prepend
    have hsigned := hquotient.trans
      ((leads_divideBack hneg' hpush' hroom' (x ^^^ y)).quiet (exists_working ..))
      fun _ _ => Passes.append
    rw [toUInt32_div_eq]
    exact ⟨_, hsigned.mono fun _ h => h.mono (by omega) le_rfl⟩

theorem leads_divide (hroom : 4 * (st.length + 2) ≤ S.capacity) (hy : y ≠ 0) :
    ∃ b, S.Leads 10540 (At a si di d (y :: x :: st))
      (Left (behind a (divide n)) si di d ((x.toInt32 / y.toInt32).toUInt32 :: st)
        (some b)) := by
  obtain ⟨b, h⟩ := leadsBy_divide (x := x) (y := y) hp hz hroom hy
  exact ⟨b, h.mono fun _ h => h.length⟩

end divide

end Site

end RpnY86.Code
