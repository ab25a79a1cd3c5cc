import Mathlib
import RpnY86.Y86.Machine

/-! # Words as signed numbers

`signed v` is the number that a word stands for in two's complement. Sums and differences of words
are those of the numbers, folded back into the range of a word (`signed_add`, `signed_sub`).

A condition read off the flags of a subtraction compares the two operands exactly, also when the
difference does not fit in a word (`holds_flags_sub`); read off the flags of a word combined with
itself it compares that word with zero (`holds_flags_and_self`). -/

namespace RpnY86.Y86

/-- The number that a word stands for in two's complement. -/
def signed (v : UInt32) : Int := v.toInt32.toInt

theorem signed_eq_toInt (v : UInt32) : signed v = v.toBitVec.toInt := rfl

theorem signed_eq (v : UInt32) :
    signed v = if v.toNat < 2 ^ 31 then (v.toNat : Int) else v.toNat - 2 ^ 32 := by
  rw [signed_eq_toInt, BitVec.toInt_eq_toNat_cond]
  have h : v.toBitVec.toNat = v.toNat := rfl
  rw [h]
  split <;> split <;> omega

theorem le_signed (v : UInt32) : -2 ^ 31 ≤ signed v := by
  have := v.toNat_lt
  rw [signed_eq]
  split <;> omega

theorem signed_lt (v : UInt32) : signed v < 2 ^ 31 := by
  have := v.toNat_lt
  rw [signed_eq]
  split <;> omega

theorem signed_inj {a b : UInt32} : signed a = signed b ↔ a = b := by
  constructor
  · intro h
    exact UInt32.toBitVec_inj.1 (BitVec.toInt_inj.1 h)
  · rintro rfl
    rfl

theorem signed_add (a b : UInt32) : signed (a + b) = (signed a + signed b).bmod (2 ^ 32) := by
  simp only [signed_eq_toInt, UInt32.toBitVec_add, BitVec.toInt_add]

theorem signed_sub (a b : UInt32) : signed (a - b) = (signed a - signed b).bmod (2 ^ 32) := by
  simp only [signed_eq_toInt, UInt32.toBitVec_sub, BitVec.toInt_sub]

theorem signed_neg (a : UInt32) : signed (-a) = (-signed a).bmod (2 ^ 32) := by
  simp only [signed_eq_toInt, UInt32.toBitVec_neg, BitVec.toInt_neg]

theorem signed_ofNat (k : Nat) : signed (UInt32.ofNat k) = (k : Int).bmod (2 ^ 32) := by
  rw [signed_eq_toInt, UInt32.toBitVec_ofNat', ← BitVec.ofInt_natCast, BitVec.toInt_ofInt]

theorem signed_neg_ofNat (k : Nat) : signed (-UInt32.ofNat k) = (-(k : Int)).bmod (2 ^ 32) := by
  rw [signed_neg, signed_ofNat, Int.bmod_neg_bmod]

theorem ofInt_natCast (n : Nat) : UInt32.ofInt n = UInt32.ofNat n := by
  have h : ((n : Int) % 2 ^ 32).toNat = n % 2 ^ 32 := by omega
  rw [UInt32.ofInt, h]
  exact UInt32.ofNat_mod_size

theorem signed_sub_of_fits {a b : UInt32} (h : -2 ^ 31 ≤ signed a - signed b)
    (h' : signed a - signed b < 2 ^ 31) : signed (a - b) = signed a - signed b := by
  rw [signed_sub, Int.bmod_eq_of_le (by omega) (by omega)]

theorem signed_neg_of_ne {a : UInt32} (h : signed a ≠ -2 ^ 31) : signed (-a) = -signed a := by
  have := le_signed a
  have := signed_lt a
  rw [signed_neg, Int.bmod_eq_of_le (by omega) (by omega)]

theorem toNat_ofInt (n : Int) : (UInt32.ofInt n).toNat = (n % 2 ^ 32).toNat := by
  rw [UInt32.ofInt, UInt32.toNat_ofNat_of_lt']
  change (n % 2 ^ 32).toNat < 2 ^ 32
  omega

theorem signed_ofInt {n : Int} (h : -2 ^ 31 ≤ n) (h' : n < 2 ^ 31) :
    signed (UInt32.ofInt n) = n := by
  rw [signed_eq, toNat_ofInt]
  split <;> omega

theorem isNegative_iff (v : UInt32) : isNegative v = true ↔ signed v < 0 := by
  simp only [isNegative, signed, Int32.lt_iff_toInt_lt, decide_eq_true_eq]
  rfl

/-! ### Conditions -/

namespace Condition

/-- What a condition says about two numbers. -/
def Orders (c : Condition) (x y : Int) : Prop :=
  match c with
  | .always => True
  | .le => x ≤ y
  | .l => x < y
  | .e => x = y
  | .ne => x ≠ y
  | .ge => y ≤ x
  | .g => y < x

/-- Flags that tell whether a number is equal to another and whether it is less decide all
conditions on the two. -/
theorem holds_iff_orders {f : Flags} {x y : Int} (hz : f.zero = true ↔ x = y)
    (hl : (f.sign != f.overflow) = true ↔ x < y) (c : Condition) :
    c.holds f = true ↔ c.Orders x y := by
  have hg : (f.sign == f.overflow) = true ↔ ¬ x < y := by
    rw [← hl]
    cases f.sign <;> cases f.overflow <;> decide
  cases c with
  | always => simp [holds, Orders]
  | le => rw [holds, Orders, Bool.or_eq_true, hl, hz]; omega
  | l => exact hl
  | e => exact hz
  | ne => rw [holds, Orders, Bool.not_eq_true', ← Bool.not_eq_true, hz]
  | ge => rw [holds, Orders, hg]; omega
  | g => rw [holds, Orders, Bool.and_eq_true, hg, Bool.not_eq_true', ← Bool.not_eq_true, hz]; omega

/-- **Comparison.** The flags of a subtraction compare the operands as signed numbers. -/
theorem holds_flags_sub (c : Condition) (a b : UInt32) :
    c.holds (AluOp.sub.flags a b) = true ↔ c.Orders (signed b) (signed a) := by
  refine holds_iff_orders ?_ ?_ c
  · have h : b - a = 0 ↔ b = a := by grind
    simp only [AluOp.flags, AluOp.result, beq_iff_eq]
    rw [h, signed_inj]
  · have ha := isNegative_iff a
    have hb := isNegative_iff b
    have hn := isNegative_iff (b - a)
    rw [signed_sub, Int.bmod_def] at hn
    have := le_signed a
    have := signed_lt a
    have := le_signed b
    have := signed_lt b
    simp only [AluOp.flags, AluOp.result, AluOp.overflows]
    -- the sign of the difference is wrong exactly when the subtraction overflows
    cases hsa : isNegative a <;> cases hsb : isNegative b <;> cases hsn : isNegative (b - a) <;>
      simp [hsa, hsb, hsn] at ha hb hn ⊢ <;> omega

theorem holds_flags_and_self (c : Condition) (a : UInt32) :
    c.holds (AluOp.and.flags a a) = true ↔ c.Orders (signed a) 0 := by
  have hr : AluOp.and.result a a = a := UInt32.and_self
  refine holds_iff_orders ?_ ?_ c
  · have h0 : signed 0 = 0 := rfl
    simp only [AluOp.flags, hr, beq_iff_eq]
    rw [← h0, signed_inj]
  · have hf : (AluOp.and.flags a a).overflow = false := rfl
    have hs : (AluOp.and.flags a a).sign = isNegative a := by simp only [AluOp.flags, hr]
    rw [hf, hs, Bool.bne_false, isNegative_iff]

/-- The flags of an addition compare the exact sum with zero, as far as signs go. -/
theorem holds_flags_add_ge (a b : UInt32) :
    Condition.ge.holds (AluOp.add.flags a b) = true ↔ 0 ≤ signed b + signed a := by
  have ha := isNegative_iff a
  have hb := isNegative_iff b
  have hn := isNegative_iff (b + a)
  rw [signed_add, Int.bmod_def] at hn
  have := le_signed a
  have := signed_lt a
  have := le_signed b
  have := signed_lt b
  simp only [holds, AluOp.flags, AluOp.result, AluOp.overflows]
  cases hsa : isNegative a <;> cases hsb : isNegative b <;> cases hsn : isNegative (b + a) <;>
    simp [hsa, hsb, hsn] at ha hb hn ⊢ <;> omega

/-- Of the conditions less and not less just one holds. -/
theorem holds_l_iff (f : Flags) : Condition.l.holds f = true ↔ ¬ Condition.ge.holds f = true := by
  simp only [holds]
  cases f.sign <;> cases f.overflow <;> decide

theorem holds_flags_add_l (a b : UInt32) :
    Condition.l.holds (AluOp.add.flags a b) = true ↔ signed b + signed a < 0 := by
  rw [holds_l_iff, holds_flags_add_ge, Int.not_le]

theorem holds_flags_e (op : AluOp) (a b : UInt32) :
    Condition.e.holds (op.flags a b) = true ↔ op.result a b = 0 := by
  simp [holds, AluOp.flags]

end Condition

end RpnY86.Y86
