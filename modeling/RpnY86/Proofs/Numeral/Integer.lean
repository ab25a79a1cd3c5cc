import RpnY86.Proofs.Numeral.RoundTrip

/-! # Integers as words

An integer word is a run of decimal digits, perhaps behind a minus sign. Such a word is read as its
value if that fits in 32 bits, and refused otherwise (`readSigned_integer`). -/

namespace RpnY86.Numeral

/-- Whether a word is a run of decimal digits. -/
def isDigits (w : List Char) : Bool := !w.isEmpty && w.all Char.isDigit

/-- Whether a word is an integer. -/
def isInteger : List Char → Bool
  | '-' :: w => isDigits w
  | w => isDigits w

/-- The number that decimal digits stand for. -/
def digitsValue (w : List Char) : Nat := w.foldl (fun v c => 10 * v + (c.toNat - '0'.toNat)) 0

/-- The number that an integer word stands for. -/
def integerValue : List Char → Int
  | '-' :: w => -digitsValue w
  | w => digitsValue w

/-- A number fits in 32 bits, in two's complement. -/
abbrev IsNarrow (n : Int) : Prop := -2 ^ 31 ≤ n ∧ n < 2 ^ 31

variable {w : List Char}

theorem areDigits_of_isDigits (h : isDigits w = true) : w ≠ [] ∧ AreDigits 10 w := by
  rw [isDigits, Bool.and_eq_true, Bool.not_eq_true', List.isEmpty_eq_false_iff] at h
  exact ⟨h.1, fun c hc => isDigit_iff.1 (List.all_eq_true.1 h.2 c hc)⟩

theorem digitValue?_eq_sub {c : Char} {d : Nat} (h : digitValue? c = some d) (hd : d < 10) :
    c.toNat - '0'.toNat = d := by
  have h0 : '0'.toNat = 48 := rfl
  rw [h0]
  unfold digitValue? at h
  grind

theorem valueFrom_eq_foldl (h : AreDigits 10 w) (v : Nat) :
    valueFrom 10 v w = w.foldl (fun v c => 10 * v + (c.toNat - '0'.toNat)) v := by
  induction w generalizing v with
  | nil => rfl
  | cons c w ih =>
    obtain ⟨d, hd, hlt⟩ := h c (List.mem_cons_self ..)
    have ih := ih (fun c' hc' => h c' (List.mem_cons_of_mem c hc'))
    unfold valueFrom at ih ⊢
    rw [List.foldl_cons, List.foldl_cons, ih, hd, Option.getD_some, digitValue?_eq_sub hd hlt,
      Nat.mul_comm]

theorem readUnsigned_plain (h : isDigits w = true) (bits : Nat) :
    readUnsigned .plain bits w =
      if digitsValue w < 2 ^ bits then .ok (digitsValue w) else .error .outOfRange := by
  obtain ⟨hne, hdigits⟩ := areDigits_of_isDigits h
  have hpow : 0 < 2 ^ bits := Nat.two_pow_pos bits
  have hread : readDigits 10 (2 ^ bits - 1) false 0 w = _ :=
    readDigits_eq (by decide) hdigits (Nat.zero_le _)
  rw [valueFrom_eq_foldl hdigits] at hread
  rw [readUnsigned, if_neg (by rwa [List.isEmpty_iff]), digitsValue]
  simp only [Nat.one_shiftLeft, hread]
  split <;> split
  · rfl
  · omega
  · omega
  · rfl

theorem withSign_narrow (n : Nat) (negative : Bool) :
    ((if n < 2 ^ 32 then .ok n else .error .outOfRange : Except ReadError Nat) >>=
      withSign 32 negative) =
      if IsNarrow (if negative then -n else n) then .ok (if negative then -n else n)
      else .error .outOfRange := by
  by_cases hn : n < 2 ^ 32
  · rw [if_pos hn]
    change withSign 32 negative n = _
    simp only [withSign, Nat.one_shiftLeft]
    cases negative with
    | true =>
      simp only [if_true]
      split <;> split
      · rfl
      · omega
      · omega
      · rfl
    | false =>
      simp only [Bool.false_eq_true, if_false]
      split <;> split
      · rfl
      · omega
      · omega
      · rfl
  · have hwide : ¬ IsNarrow (if negative then -n else n) := by
      split <;> omega
    rw [if_neg hn, if_neg hwide]
    rfl

/-- **Integers are read** if they fit in 32 bits. -/
theorem readSigned_integer (h : isInteger w = true) :
    readSigned .plain 32 w =
      if IsNarrow (integerValue w) then .ok (integerValue w) else .error .outOfRange := by
  unfold isInteger at h
  split at h
  · rename_i w
    rw [readSigned, readUnsigned_plain h, integerValue]
    exact withSign_narrow (digitsValue w) true
  · rename_i hminus
    have hvalue : integerValue w = digitsValue w := by
      unfold integerValue
      split
      · exact absurd rfl (hminus _)
      · rfl
    have hread : readSigned .plain 32 w = readUnsigned .plain 32 w >>= withSign 32 false := by
      unfold readSigned
      split
      · exact absurd rfl (hminus _)
      · obtain ⟨-, hdigits⟩ := areDigits_of_isDigits h
        obtain ⟨d, hd, -⟩ := hdigits '+' (List.mem_cons_self ..)
        cases hd
      · rfl
    rw [hread, hvalue, readUnsigned_plain h]
    exact withSign_narrow (digitsValue w) false

end RpnY86.Numeral
