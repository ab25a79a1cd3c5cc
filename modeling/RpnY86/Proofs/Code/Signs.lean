import RpnY86.Proofs.Code.Traces
import RpnY86.Proofs.Y86.Signed

/-! # Operations with signs

What multiplication and division have in common. Both take two operands from the stack, keep the
sign of the result there, and work on negated magnitudes, so that the least integer needs no case of
its own.

`Working` is the property that holds between their parts: the registers agree with given ones,
except the scratch registers. -/

namespace RpnY86.Code

open Y86.Condition (holds_flags_and_self holds_flags_e)
open Y86 (AluOp Condition Flags Instruction Reg Registers isNegative signed)

/-! ### Words -/

/-- The negated magnitude of a word. -/
def negMagnitude (x : UInt32) : UInt32 := if signed x ≤ 0 then x else -x

theorem signed_negMagnitude (x : UInt32) :
    signed (negMagnitude x) = -((signed x).natAbs : Int) := by
  unfold negMagnitude
  split
  · omega
  · rw [Y86.signed_neg_of_ne (by omega)]
    omega

/-- The word of a negated number. -/
def negWord (k : Nat) : UInt32 := -UInt32.ofNat k

theorem signed_negWord {k : Nat} (hk : k ≤ 2 ^ 31) : signed (negWord k) = -(k : Int) := by
  rw [negWord, Y86.signed_neg_ofNat, Int.bmod_eq_of_le (by omega) (by omega)]

theorem negMagnitude_eq_negWord (x : UInt32) : negMagnitude x = negWord (signed x).natAbs := by
  have := Y86.le_signed x
  have := Y86.signed_lt x
  apply Y86.signed_inj.1
  rw [signed_negMagnitude, signed_negWord (by omega)]

/-- The sign of the exclusive or tells whether the signs differ. -/
theorem signed_xor_neg_iff (x y : UInt32) :
    signed (x ^^^ y) < 0 ↔ ¬ (signed x < 0 ↔ signed y < 0) := by
  have h (z : UInt32) : signed z < 0 ↔ z.toBitVec.msb = true := by
    rw [BitVec.msb_eq_toInt, decide_eq_true_iff, Y86.signed_eq_toInt]
  rw [h, h, h, UInt32.toBitVec_xor, BitVec.msb_xor]
  cases x.toBitVec.msb <;> cases y.toBitVec.msb <;> decide

namespace Site

variable {S : Site} {a d : UInt32} {st : OperandStack} {ρ : Registers} {n : Nat}
  {Q : View → Prop}

/-- The registers that carry nothing from one part of an operation to the next. -/
def scratch : Reg → Bool
  | .edx | .ebp | .esp => true
  | _ => false

/-- The place, operands and depth of a view, and its registers but for the scratch ones. -/
structure Working (pc d : UInt32) (st : OperandStack) (ρ : Registers) (v : View) : Prop where
  pc : v.pc = pc
  depth : v.depth = d
  stack : v.stack = st
  get : ∀ q, scratch q = false → v.registers.get q = ρ.get q

/-- A trace that fits every content of scratch registers and flags. -/
theorem leadsBy_working {T : List UInt32 → Prop} {trace : List UInt32} (hT : T trace)
    (h : ∀ r f, (∀ q, scratch q = false → r.get q = ρ.get q) →
      ∃ w, S.Runs trace ⟨a, r, f, d, st⟩ w ∧ Q w) :
    S.LeadsBy T (Working a d st ρ) Q := by
  refine ⟨trace, hT, ?_⟩
  rintro ⟨_, r, f, _, _⟩ ⟨hpc, hd, hst, hr⟩
  cases hpc
  cases hd
  cases hst
  exact h r f hr

theorem leads_working (trace : List UInt32) (hn : trace.length ≤ n)
    (h : ∀ r f, (∀ q, scratch q = false → r.get q = ρ.get q) →
      ∃ w, S.Runs trace ⟨a, r, f, d, st⟩ w ∧ Q w) :
    S.Leads n (Working a d st ρ) Q :=
  leadsBy_working hn h

theorem exists_working (a d : UInt32) (st : OperandStack) (ρ : Registers) :
    ∃ v, Working a d st ρ v :=
  ⟨⟨a, ρ, ⟨false, false, false⟩, d, st⟩, rfl, rfl, rfl, fun _ _ => rfl⟩

/-- The registers of an operation: what it has computed, and the two words that it works on. -/
def work (si di p b c : UInt32) : Registers :=
  { eax := p, ebx := b, ecx := c, esi := si, edi := di }

section work

variable (si di p b c v : UInt32)

@[simp] theorem get_work_eax : (work si di p b c).get .eax = p := rfl
@[simp] theorem get_work_ebx : (work si di p b c).get .ebx = b := rfl
@[simp] theorem get_work_ecx : (work si di p b c).get .ecx = c := rfl
@[simp] theorem set_work_eax : (work si di p b c).set .eax v = work si di v b c := rfl
@[simp] theorem set_work_ebx : (work si di p b c).set .ebx v = work si di p v c := rfl
@[simp] theorem set_work_ecx : (work si di p b c).set .ecx v = work si di p b v := rfl

end work

/-! ### Operands and signs -/

theorem leads_operands {si di x y : UInt32} (h1 : S.code a (.pop .ecx))
    (h2 : S.code (a + 2) (.pop .ebx)) (h3 : S.code (a + 2 + 2) (.alu .xor .eax .eax)) :
    S.Leads 3 (At a si di d (y :: x :: st)) (Working (a + 2 + 2 + 2) d st (work si di 0 x y)) := by
  refine leads_at [a, a + 2, a + 2 + 2] (Nat.le_refl 3) fun r f hsi hdi => ?_
  refine ⟨_, .step h1 (.pop .ecx (by decide)) (.step h2 (.pop .ebx (by decide)) (.step h3
    (.alu .xor .eax .eax (by decide) (by decide)) (.refl _))), ?_⟩
  refine ⟨rfl, rfl, rfl, fun q hq => ?_⟩
  cases q with
  | eax => exact UInt32.xor_self
  | ebx | ecx => rfl
  | esi => exact hsi
  | edi => exact hdi
  | edx | esp | ebp => exact nomatch hq

theorem leads_keepSign {si di p x y : UInt32} (h1 : S.code a (.move .always .ebx .edx))
    (h2 : S.code (a + 2) (.alu .xor .ecx .edx)) (h3 : S.code (a + 2 + 2) (.push .edx))
    (hroom : 4 * (st.length + 1) ≤ S.capacity) :
    S.Leads 3 (Working a d st (work si di p x y))
      (Working (a + 2 + 2 + 2) d ((x ^^^ y) :: st) (work si di p x y)) := by
  refine leads_working [a, a + 2, a + 2 + 2] (Nat.le_refl 3) fun r f hr => ?_
  refine ⟨_, .step h1 (.move .always .ebx .edx (by decide) (by decide)) (.step h2
    (.alu .xor .ecx .edx (by decide) (by decide)) (.step h3 (.push .edx (by decide) hroom)
    (.refl _))), ?_⟩
  refine ⟨rfl, rfl, ?_, fun q hq => ?_⟩
  · have hb : r.get .ebx = x := hr .ebx rfl
    have hc : r.get .ecx = y := hr .ecx rfl
    simp [Condition.holds, AluOp.result, hb, hc]
  · have hedx : q ≠ .edx := by rintro rfl; cases hq
    simp [Condition.holds, hedx, hr q hq]

theorem leads_takeSign {x b : UInt32} {c : Condition} (h1 : S.code a (.pop .edx))
    (h2 : S.code (a + 2) (.alu .and .edx .edx)) (h3 : S.code (a + 2 + 2) (.jump c b)) :
    S.Leads 3 (Working a d (x :: st) ρ)
      (Working (if c.holds (AluOp.and.flags x x) then b else a + 2 + 2 + 5) d st ρ) := by
  refine leads_working [a, a + 2, a + 2 + 2] (Nat.le_refl 3) fun r f hr => ?_
  refine ⟨_, .step h1 (.pop .edx (by decide)) (.step h2
    (.alu .and .edx .edx (by decide) (by decide)) (.step h3 (.jump c b) (.refl _))), ?_⟩
  refine ⟨rfl, rfl, rfl, fun q hq => ?_⟩
  have hedx : q ≠ .edx := by rintro rfl; exact nomatch hq
  simp [hedx, hr q hq]

theorem leads_pushResult {si di p b c : UInt32} {done : String}
    (hp : S.Placed a (pushResult done)) (hroom : 4 * (st.length + 1) ≤ S.capacity) :
    S.Leads 1 (Working a d st (work si di p b c))
      (Left (behind a (pushResult done)) si di d (p :: st) (some b)) := by
  simp [pushResult, resolve?, Instruction.length] at hp
  refine leads_working [a] (Nat.le_refl 1) fun r f hr => ?_
  refine ⟨_, .step hp.2 (.push .eax (by decide) hroom) (.refl _), ?_⟩
  refine ⟨⟨rfl, rfl, congrArg (· :: st) (hr .eax rfl), hr .esi rfl, hr .edi rfl⟩, ?_⟩
  rintro _ ⟨⟩
  exact hr .ebx rfl

/-! ### Negation -/

theorem leads_negate {q : Reg} (hq : scratch q = false) (hp : S.Placed a (negate q .edx)) :
    S.Leads 3 (Working a d st ρ)
      (Working (behind a (negate q .edx)) d st (ρ.set q (-ρ.get q))) := by
  have hesp : q ≠ .esp := by rintro rfl; exact nomatch hq
  have hedx : q ≠ .edx := by rintro rfl; exact nomatch hq
  simp [negate, copy, resolve?, Instruction.length] at hp
  obtain ⟨h1, h2, h3⟩ := hp
  refine leads_working [a, a + 2, a + 2 + 2] (by simp) fun r f hr => ?_
  refine ⟨_, .step h1 (.alu .xor .edx .edx (by decide) (by decide)) (.step h2
    (.alu .sub q .edx hesp (by decide)) (.step h3 (.move .always .edx q (by decide) hesp)
    (.refl _))), ?_⟩
  refine ⟨rfl, rfl, rfl, fun p hp => ?_⟩
  have hpedx : p ≠ .edx := by rintro rfl; exact nomatch hp
  simp [Condition.holds, Registers.get_set, AluOp.result, hpedx, hedx, hr p hp, hr q hq]

theorem leads_test {q : Reg} (hq : scratch q = false) {c : Condition} {b : UInt32}
    (h1 : S.code a (.alu .and q q)) (h2 : S.code (a + 2) (.jump c b)) :
    S.Leads 2 (Working a d st ρ)
      (Working (if c.holds (AluOp.and.flags (ρ.get q) (ρ.get q)) then b else a + 2 + 5) d st ρ) := by
  have hesp : q ≠ .esp := by rintro rfl; exact nomatch hq
  refine leads_working [a, a + 2] (Nat.le_refl 2) fun r f hr => ?_
  refine ⟨_, .step h1 (.alu .and q q hesp hesp) (.step h2 (.jump c b) (.refl _)), ?_⟩
  refine ⟨?_, rfl, rfl, fun p hp => ?_⟩
  · rw [hr q hq]
  · by_cases hpq : p = q
    · simp [hpq, AluOp.result, hr q hq]
    · simp [hpq, hr p hp]

theorem leads_testZero {q : Reg} (hq : scratch q = false) {b : UInt32}
    (h1 : S.code a (.alu .and q q)) (h2 : S.code (a + 2) (.jump .e b)) :
    S.Leads 2 (Working a d st ρ) (Working (if ρ.get q = 0 then b else a + 2 + 5) d st ρ) := by
  have h : S.Leads 2 (Working a d st ρ) _ := leads_test hq h1 h2
  have he : _ ↔ ρ.get q &&& ρ.get q = 0 := holds_flags_e .and (ρ.get q) (ρ.get q)
  simpa only [he, UInt32.and_self] using h

theorem leads_nonPositive {q : Reg} (hq : scratch q = false) {skip : String}
    (hp : S.Placed a (nonPositive q .edx skip)) :
    S.Leads 5 (Working a d st ρ) (Working (behind a (nonPositive q .edx skip)) d st
      (ρ.set q (negMagnitude (ρ.get q)))) := by
  simp [nonPositive, goto, placed_append, resolve?, Ref.resolve?, Instruction.length] at hp
  obtain ⟨h1, ⟨b, hb, h2⟩, h3, hskip⟩ := hp
  obtain rfl := Option.some.inj (hb.symm.trans hskip)
  have hend : behind a (nonPositive q .edx skip) = behind (a + 2 + 5) (negate q .edx) := by
    simp [nonPositive, goto, behind_append, Instruction.length]
  have hle := holds_flags_and_self .le (ρ.get q)
  have htest : S.Leads 2 (Working a d st ρ) _ := leads_test hq h1 h2
  rw [hend]
  by_cases hx : signed (ρ.get q) ≤ 0
  · have hsame : negMagnitude (ρ.get q) = ρ.get q := if_pos hx
    rw [if_pos (hle.2 hx)] at htest
    refine (htest.mono (by omega)).weaken (fun _ hv => hv) fun v hv => ?_
    exact ⟨hv.pc, hv.depth, hv.stack, fun p hp => by simp +contextual [hv.get p hp, hsame]⟩
  · have hneg : negMagnitude (ρ.get q) = -ρ.get q := if_neg hx
    rw [if_neg fun h => hx (hle.1 h)] at htest
    rw [hneg]
    exact htest.trans (leads_negate hq h3)

end Site

end RpnY86.Code
