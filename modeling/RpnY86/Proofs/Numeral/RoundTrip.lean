import Mathlib
import RpnY86.Numeral.Digits
import RpnY86.Numeral.Read
import RpnY86.Proofs.Results
import RpnY86.Text.Classes

/-! # Numbers survive writing and reading

Reading digits gives their value, or an error if it is too large (`readDigits_eq`). The digits of a
number have that number as their value (`valueFrom_digits`). So a number that is written in decimal,
or in hexadecimal behind its mark, is read back (`readSigned_signedDigits`, `readUnsigned_hex`). -/

namespace RpnY86.Numeral

variable {radix bound : Nat} {gaps : Bool} {cs : List Char}

/-! ### Values of digits -/

/-- The number of digits behind others of value `v`, most significant first. -/
def digitsFrom (radix v : Nat) (ds : List Nat) : Nat := ds.foldl (fun v d => v * radix + d) v

theorem le_digitsFrom (hr : 0 < radix) (v : Nat) (ds : List Nat) : v ≤ digitsFrom radix v ds := by
  induction ds generalizing v with
  | nil => exact Nat.le_refl v
  | cons d ds ih =>
    have h : v ≤ v * radix := Nat.le_mul_of_pos_right v hr
    exact Nat.le_trans (by omega) (ih (v * radix + d))

/-- The value of digits behind others of value `v`. -/
def valueFrom (radix v : Nat) (cs : List Char) : Nat :=
  cs.foldl (fun v c => v * radix + (digitValue? c).getD 0) v

/-- All characters are digits below the radix. -/
def AreDigits (radix : Nat) (cs : List Char) : Prop :=
  ∀ c ∈ cs, ∃ d, digitValue? c = some d ∧ d < radix

theorem valueFrom_eq (radix v : Nat) (cs : List Char) :
    valueFrom radix v cs = digitsFrom radix v (cs.map fun c => (digitValue? c).getD 0) :=
  List.foldl_map.symm

theorem le_valueFrom (hr : 0 < radix) (v : Nat) (cs : List Char) : v ≤ valueFrom radix v cs := by
  rw [valueFrom_eq]
  exact le_digitsFrom hr v _

theorem isDigit_iff_toNat {c : Char} : c.isDigit = true ↔ 48 ≤ c.toNat ∧ c.toNat ≤ 57 := by
  simp [Char.isDigit, UInt32.le_iff_toNat_le]

theorem isLetter_of_isDigit {c : Char} (h : c.isDigit = true) : Text.isLetter c = false := by
  have hval := isDigit_iff_toNat.1 h
  have halpha : c.isAlpha = false := by
    simp [Char.isAlpha, Char.isUpper, Char.isLower, UInt32.le_iff_toNat_le]
    grind
  rw [Text.isLetter, if_pos (by omega), halpha]

theorem isDigit_iff {c : Char} : c.isDigit = true ↔ ∃ d, digitValue? c = some d ∧ d < 10 := by
  rw [isDigit_iff_toNat]
  refine ⟨fun h => ⟨c.toNat - 48, ?_, by omega⟩, fun ⟨d, hd, hlt⟩ => ?_⟩
  · simp [digitValue?, h.1, h.2]
  · unfold digitValue? at hd
    grind

theorem digitValue?_underscore : digitValue? '_' = none := rfl

theorem readDigits_eq (hr : 0 < radix) (h : AreDigits radix cs) {v : Nat} (hv : v ≤ bound) :
    readDigits radix bound gaps v cs =
      if valueFrom radix v cs ≤ bound then .ok (valueFrom radix v cs) else .error .outOfRange := by
  induction cs generalizing v with
  | nil => exact (if_pos hv).symm
  | cons c cs ih =>
    obtain ⟨d, hd, hlt⟩ := h c (List.mem_cons_self ..)
    have hgap : (gaps && c == '_') = false := by
      by_cases hc : c = '_'
      · rw [hc, digitValue?_underscore] at hd
        exact nomatch hd
      · simp [hc]
    have hvalue : valueFrom radix v (c :: cs) = valueFrom radix (v * radix + d) cs := by
      rw [valueFrom, List.foldl_cons, hd, Option.getD_some, valueFrom]
    rw [readDigits, hgap, hvalue]
    simp only [Bool.false_eq_true, if_false, hd, if_neg (Nat.not_le.2 hlt)]
    by_cases hb : bound < v * radix + d
    · have := le_valueFrom hr (v * radix + d) cs
      rw [if_pos hb, if_neg (by omega)]
    · rw [if_neg hb]
      exact ih (fun c' hc' => h c' (List.mem_cons_of_mem c hc')) (by omega)

/-! ### Written digits -/

theorem digitValue?_digitChar {d : Nat} (h : d < 16) : digitValue? (Nat.digitChar d) = some d := by
  revert d
  decide

theorem digits_eq (hr : 2 ≤ radix) (n : Nat) :
    digits radix n =
      if radix ≤ n then digits radix (n / radix) ++ [Nat.digitChar (n % radix)]
      else [Nat.digitChar n] := by
  rw [digits]
  by_cases h : radix ≤ n
  · rw [dif_pos ⟨hr, h⟩, if_pos h]
  · rw [dif_neg (fun h' => h h'.2), if_neg h]

theorem digits_ne_nil (radix n : Nat) : digits radix n ≠ [] := by
  rw [digits]
  split <;> simp

section digits

variable (hr : 2 ≤ radix) (hr' : radix ≤ 16)

include hr hr'

theorem areDigits_digits (n : Nat) : AreDigits radix (digits radix n) := by
  induction n using Nat.strongRecOn with
  | ind n ih =>
    rw [digits_eq hr]
    split
    · rename_i h
      have hmod : n % radix < radix := Nat.mod_lt n (by omega)
      intro c hc
      rcases List.mem_append.1 hc with hc | hc
      · exact ih (n / radix) (Nat.div_lt_self (by omega) (by omega)) c hc
      · rw [List.mem_singleton.1 hc]
        exact ⟨_, digitValue?_digitChar (by omega), hmod⟩
    · rename_i h
      intro c hc
      rw [List.mem_singleton.1 hc]
      exact ⟨n, digitValue?_digitChar (by omega), by omega⟩

/-- **Digits have their number as value.** -/
theorem valueFrom_digits (n : Nat) : valueFrom radix 0 (digits radix n) = n := by
  induction n using Nat.strongRecOn with
  | ind n ih =>
    rw [digits_eq hr]
    split
    · rename_i h
      have hmod : n % radix < radix := Nat.mod_lt n (by omega)
      have hdiv := ih (n / radix) (Nat.div_lt_self (by omega) (by omega))
      unfold valueFrom at hdiv ⊢
      rw [List.foldl_append, hdiv, List.foldl_cons, List.foldl_nil,
        digitValue?_digitChar (by omega), Option.getD_some, Nat.mul_comm, Nat.div_add_mod]
    · rename_i h
      simp [valueFrom, digitValue?_digitChar (show n < 16 by omega)]

theorem head?_digits_ne_zero {n : Nat} (hn : 0 < n) : (digits radix n).head? ≠ some '0' := by
  induction n using Nat.strongRecOn with
  | ind n ih =>
    rw [digits_eq hr]
    split
    · rename_i h
      have hpos : 0 < n / radix := Nat.div_pos h (by omega)
      have hhead := ih (n / radix) (Nat.div_lt_self (by omega) (by omega)) hpos
      cases hd : digits radix (n / radix) with
      | nil => exact absurd hd (digits_ne_nil radix (n / radix))
      | cons c cs =>
        rw [hd] at hhead
        exact hhead
    · rename_i h
      intro hc
      have hchar : Nat.digitChar n = '0' := Option.some.inj hc
      have hvalue := digitValue?_digitChar (show n < 16 by omega)
      rw [hchar] at hvalue
      have : (some 0 : Option Nat) = some n := hvalue
      simp only [Option.some.injEq] at this
      omega

end digits

/-! ### Numerals -/

theorem gapsPlaced_of_areDigits (h : AreDigits radix cs) (b : Bool) : gapsPlaced b cs = true := by
  induction cs generalizing b with
  | nil => rfl
  | cons c cs ih =>
    obtain ⟨d, hd, -⟩ := h c (List.mem_cons_self ..)
    have hc : (c == '_') = false := by
      by_cases hc : c = '_'
      · rw [hc, digitValue?_underscore] at hd
        exact nomatch hd
      · simp [hc]
    rw [gapsPlaced, hc]
    exact ih (fun c' hc' => h c' (List.mem_cons_of_mem c hc')) true

/-- **A number in hexadecimal is read back**, if it is one of `bits` bits. -/
theorem readUnsigned_hex (bits n : Nat) :
    readUnsigned .marked bits ('0' :: 'x' :: digits 16 n) =
      if n < 2 ^ bits then .ok n else .error .outOfRange := by
  have hdigits : AreDigits 16 (digits 16 n) := areDigits_digits (by omega) (by omega) n
  have hpow : 0 < 2 ^ bits := Nat.two_pow_pos bits
  have hread : readDigits 16 (2 ^ bits - 1) true 0 (digits 16 n) = _ :=
    readDigits_eq (by omega) hdigits (Nat.zero_le _)
  rw [valueFrom_digits (by omega) (by omega)] at hread
  have hspaced : wellSpaced ('0' :: 'x' :: digits 16 n) = true :=
    gapsPlaced_of_areDigits hdigits true
  have hsplit : splitMark ('0' :: 'x' :: digits 16 n) = (16, digits 16 n) := by
    cases hd : digits 16 n with
    | nil => exact absurd hd (digits_ne_nil 16 n)
    | cons c cs => rfl
  simp only [readUnsigned, List.isEmpty_cons, Bool.false_eq_true, if_false, Nat.one_shiftLeft,
    hsplit, hread, hspaced]
  by_cases h : n < 2 ^ bits
  · rw [if_pos h, if_pos (by omega)]
    rfl
  · rw [if_neg h, if_neg (by omega)]
    rfl

theorem splitMark_of_head {c : Char} (hc : c ≠ '0') (cs : List Char) :
    splitMark (c :: cs) = (10, c :: cs) := by
  unfold splitMark
  split
  · rename_i h
    exact absurd (List.cons.inj h).1 hc
  · rename_i h
    exact absurd (List.cons.inj h).1 hc
  · rfl

theorem wellSpaced_of_head {c : Char} (hc : c ≠ '0') (cs : List Char) :
    wellSpaced (c :: cs) = gapsPlaced false (c :: cs) := by
  unfold wellSpaced
  split
  · rename_i h
    exact absurd (List.cons.inj h).1 hc
  · rfl

/-- **A number in decimal is read back**, if it is one of `bits` bits. -/
theorem readUnsigned_decimal (bits n : Nat) :
    readUnsigned .marked bits (digits 10 n) =
      if n < 2 ^ bits then .ok n else .error .outOfRange := by
  have hdigits : AreDigits 10 (digits 10 n) := areDigits_digits (by omega) (by omega) n
  have hpow : 0 < 2 ^ bits := Nat.two_pow_pos bits
  by_cases h0 : n = 0
  · have hd : digits 10 n = ['0'] := by
      rw [h0, digits_eq (by omega), if_neg (by omega)]
      rfl
    rw [hd, if_pos (by omega), h0]
    rfl
  · have hread : readDigits 10 (2 ^ bits - 1) true 0 (digits 10 n) = _ :=
      readDigits_eq (by omega) hdigits (Nat.zero_le _)
    rw [valueFrom_digits (by omega) (by omega)] at hread
    have hhead : (digits 10 n).head? ≠ some '0' :=
      head?_digits_ne_zero (by omega) (by omega) (Nat.pos_of_ne_zero h0)
    cases hd : digits 10 n with
    | nil => exact absurd hd (digits_ne_nil 10 n)
    | cons c cs =>
      rw [hd] at hhead hread hdigits
      have hc : c ≠ '0' := fun h => hhead (congrArg some h)
      have hspaced : wellSpaced (c :: cs) = true := by
        rw [wellSpaced_of_head hc]
        exact gapsPlaced_of_areDigits hdigits false
      simp only [readUnsigned, List.isEmpty_cons, Bool.false_eq_true, if_false, Nat.one_shiftLeft,
        splitMark_of_head hc, hread, hspaced]
      by_cases h : n < 2 ^ bits
      · rw [if_pos h, if_pos (by omega)]
        rfl
      · rw [if_neg h, if_neg (by omega)]
        rfl

theorem readSigned_digits (style : Style) (bits n : Nat) :
    readSigned style bits (digits 10 n) =
      readUnsigned style bits (digits 10 n) >>= withSign bits false := by
  have hdigits : AreDigits 10 (digits 10 n) := areDigits_digits (by omega) (by omega) n
  unfold readSigned
  split
  · rename_i h
    obtain ⟨d, hd, -⟩ := hdigits '-' (by rw [h]; exact List.mem_cons_self ..)
    exact nomatch hd
  · rename_i h
    obtain ⟨d, hd, -⟩ := hdigits '+' (by rw [h]; exact List.mem_cons_self ..)
    exact nomatch hd
  · rfl

/-- **An integer in decimal is read back**, if it is one of 64 bits. -/
theorem readSigned_signedDigits {n : Int} (h : -2 ^ 63 ≤ n) (h' : n < 2 ^ 63) :
    readSigned .marked 64 (signedDigits 10 n) = .ok n := by
  cases n with
  | ofNat k =>
    have hk : k < 2 ^ 63 := by simp only [Int.ofNat_eq_natCast] at h'; omega
    rw [signedDigits, readSigned_digits, readUnsigned_decimal, if_pos (by omega)]
    exact if_pos hk
  | negSucc k =>
    have hk : k + 1 ≤ 2 ^ 63 := by omega
    rw [signedDigits, readSigned, readUnsigned_decimal, if_pos (by omega)]
    exact if_pos hk

theorem readSigned_letter {c : Char} {d : Nat} (hd : digitValue? c = some d) (h : 10 ≤ d)
    (bits : Nat) (cs : List Char) : readSigned .marked bits (c :: cs) = .error .malformed := by
  have h0 : c ≠ '0' := by
    rintro rfl
    have : (some 0 : Option Nat) = some d := hd
    simp only [Option.some.injEq] at this
    omega
  have hgap : (true && c == '_') = false := by
    by_cases hc : c = '_'
    · rw [hc, digitValue?_underscore] at hd
      exact nomatch hd
    · simp [hc]
  have hread : readUnsigned .marked bits (c :: cs) = .error .malformed := by
    simp only [readUnsigned, List.isEmpty_cons, Bool.false_eq_true, if_false,
      splitMark_of_head h0, readDigits, hgap, hd, if_pos h]
    rfl
  unfold readSigned
  split
  · rename_i h'
    rw [(List.cons.inj h').1] at hd
    exact nomatch hd
  · rename_i h'
    rw [(List.cons.inj h').1] at hd
    exact nomatch hd
  · rw [hread]
    rfl

theorem isDigit_of_readUnsigned {c : Char} {bits n : Nat}
    (h : readUnsigned .marked bits (c :: cs) = .ok n) : c.isDigit = true := by
  by_cases h0 : c = '0'
  · rw [h0]
    rfl
  · simp only [readUnsigned, List.isEmpty_cons, Bool.false_eq_true, if_false,
      splitMark_of_head h0, wellSpaced_of_head h0] at h
    cases hread : readDigits 10 ((1 <<< bits) - 1) true 0 (c :: cs) with
    | error e =>
      rw [hread] at h
      cases h
    | ok v =>
      rw [hread] at h
      have hne : c ≠ '_' := by
        rintro rfl
        cases h
      have hgap : ¬ (true && c == '_') = true := by simp [hne]
      rw [readDigits, if_neg hgap] at hread
      cases hd : digitValue? c with
      | none =>
        rw [hd] at hread
        cases hread
      | some d =>
        by_cases hlt : d < 10
        · exact isDigit_iff.2 ⟨d, hd, hlt⟩
        · simp only [hd, if_pos (Nat.not_lt.1 hlt)] at hread
          cases hread

theorem exists_readUnsigned_error {c : Char} (hc : c.isDigit = false) (bits : Nat)
    (cs : List Char) : ∃ e, readUnsigned .marked bits (c :: cs) = .error e := by
  cases h : readUnsigned .marked bits (c :: cs) with
  | error e => exact ⟨e, rfl⟩
  | ok n =>
    rw [isDigit_of_readUnsigned h] at hc
    cases hc

theorem exists_readSigned_error {c : Char} (hc : c.isDigit = false) (hminus : c ≠ '-')
    (hplus : c ≠ '+') (bits : Nat) (cs : List Char) :
    ∃ e, readSigned .marked bits (c :: cs) = .error e := by
  obtain ⟨e, he⟩ := exists_readUnsigned_error hc bits cs
  refine ⟨e, ?_⟩
  unfold readSigned
  split
  · rename_i h
    exact absurd (List.cons.inj h).1 hminus
  · rename_i h
    exact absurd (List.cons.inj h).1 hplus
  · rw [he]
    rfl

/-- A magnitude behind a sign, or behind none. -/
def signed (negative : Bool) (magnitude : Nat) : Int := if negative then -magnitude else magnitude

theorem withSign_eq_ok {bits magnitude : Nat} {negative : Bool} {k : Int} :
    withSign bits negative magnitude = .ok k ↔
      k = signed negative magnitude ∧ -2 ^ (bits - 1) ≤ k ∧ k < 2 ^ (bits - 1) := by
  have hpos : (0 : Int) < 2 ^ (bits - 1) := Int.pow_pos (by omega)
  have hcast : ((2 ^ (bits - 1) : Nat) : Int) = 2 ^ (bits - 1) := by norm_cast
  unfold withSign signed
  rw [Nat.one_shiftLeft]
  split_ifs
  · simp only [Except.ok.injEq]
    omega
  · simp only [false_iff]
    omega
  · simp only [Except.ok.injEq]
    omega
  · simp only [false_iff]
    omega

theorem readSigned_bounds {style : Style} {bits : Nat} {cs : List Char} {n : Int}
    (h : readSigned style bits cs = .ok n) : -2 ^ (bits - 1) ≤ n ∧ n < 2 ^ (bits - 1) := by
  have hbind {cs : List Char} {negative : Bool}
      (h : readUnsigned style bits cs >>= withSign bits negative = .ok n) :
      -2 ^ (bits - 1) ≤ n ∧ n < 2 ^ (bits - 1) := by
    obtain ⟨magnitude, -, h⟩ := bind_eq_ok.1 h
    exact (withSign_eq_ok.1 h).2
  unfold readSigned at h
  split at h
  · exact hbind h
  · exact hbind h
  · exact hbind h

theorem areDigits_of_readDigits {v n : Nat} (h : readDigits radix bound false v cs = .ok n) :
    AreDigits radix cs := by
  induction cs generalizing v with
  | nil => exact List.forall_mem_nil _
  | cons c cs ih =>
    rw [readDigits, Bool.false_and, if_neg Bool.false_ne_true] at h
    cases hd : digitValue? c with
    | none =>
      rw [hd] at h
      cases h
    | some d =>
      rw [hd] at h
      dsimp only at h
      split_ifs at h with hradix hbound
      exact List.forall_mem_cons.2 ⟨⟨d, hd, Nat.not_le.1 hradix⟩, ih h⟩

theorem not_mem_of_readSigned {bits : Nat} {n : Int} (h : readSigned .plain bits cs = .ok n)
    {c : Char} (hc : digitValue? c = none) (hminus : c ≠ '-') (hplus : c ≠ '+') : c ∉ cs := by
  have hdigits {negative : Bool} {cs : List Char}
      (h : readUnsigned .plain bits cs >>= withSign bits negative = .ok n) : c ∉ cs := by
    intro hmem
    obtain ⟨magnitude, hread, -⟩ := bind_eq_ok.1 h
    have hne : ¬ cs.isEmpty = true := by
      rw [List.isEmpty_iff]
      exact List.ne_nil_of_mem hmem
    rw [readUnsigned, if_neg hne] at hread
    obtain ⟨d, hd, -⟩ := areDigits_of_readDigits hread c hmem
    rw [hc] at hd
    cases hd
  unfold readSigned at h
  split at h
  · exact List.not_mem_cons_of_ne_of_not_mem hminus (hdigits h)
  · exact List.not_mem_cons_of_ne_of_not_mem hplus (hdigits h)
  · exact hdigits h

end RpnY86.Numeral
