import RpnY86.Proofs.Code.Signs

/-! # Multiplication

The code of a multiplication computes the product of words (`leads_multiply`). Its loop adds the
negated magnitude of one factor as often as the magnitude of the other says (`leads_mulLoop`); the
factor that counts is the smaller one in magnitude, and neither is zero. So the loop is gone through
as often as the smaller magnitude says, and not at all if one factor is zero (`leadsBy_multiply`).
-/

namespace RpnY86.Code

open Y86 (AluOp Condition Flags Instruction Reg Registers signed)
open Y86.Condition (holds_flags_and_self holds_flags_e holds_flags_sub)

/-! ### Words -/

theorem negWord_mul (j k : Nat) : negWord j * negWord k = UInt32.ofNat (j * k) := by
  simp only [negWord, UInt32.ofNat_mul]
  grind

theorem mul_eq_natAbs_mul (x y : UInt32) :
    x * y = if signed (x ^^^ y) < 0 then negWord ((signed x).natAbs * (signed y).natAbs)
      else UInt32.ofNat ((signed x).natAbs * (signed y).natAbs) := by
  have h0 (z : UInt32) (hz : signed z = 0) : z = 0 := Y86.signed_inj.1 hz
  rw [negWord, ← negWord_mul, ← negMagnitude_eq_negWord, ← negMagnitude_eq_negWord]
  simp only [signed_xor_neg_iff]
  unfold negMagnitude
  grind

namespace Site

variable {S : Site} {a si di d p b c x y s : UInt32} {st : OperandStack} {B C : Nat}

/-! ### Traces -/

/-- A trace of at most `n` addresses, all of them outside a loop. -/
structure Outside (body : List UInt32) (n : Nat) (trace : List UInt32) : Prop where
  length : trace.length ≤ n
  avoids : ∀ c ∈ trace, c ∉ body

/-- A trace of at most `n` addresses that goes through a loop `k` times. -/
structure Turns (body : List UInt32) (n k : Nat) (trace : List UInt32) : Prop where
  length : trace.length ≤ n
  rounds : Rounds body k trace

section traces

variable {body u v : List UInt32} {n n' k : Nat}

theorem Outside.turns (h : Outside body n u) : Turns body n 0 u :=
  ⟨h.length, .of_outside h.avoids⟩

theorem Turns.prepend (h : Outside body n u) (h' : Turns body n' k v) :
    Turns body (n + n') k (u ++ v) where
  length := by rw [List.length_append]; exact Nat.add_le_add h.length h'.length
  rounds := h'.rounds.prepend h.avoids

theorem Turns.append (h : Turns body n k u) (h' : Outside body n' v) :
    Turns body (n + n') k (u ++ v) where
  length := by rw [List.length_append]; exact Nat.add_le_add h.length h'.length
  rounds := h.rounds.append h'.avoids

theorem Turns.mono (h : Turns body n k u) (hn : n ≤ n') : Turns body n' k u :=
  ⟨h.length.trans hn, h.rounds⟩

theorem Leads.outside {P P' : View → Prop} (h : (S.only (· ∉ body)).Leads n P P')
    (hP : ∃ v, P v) : S.LeadsBy (Outside body n) P P' :=
  (h.of_only hP).mono fun _ hu => ⟨hu.1, hu.2⟩

end traces

/-! ### The loop -/

/-- The addresses of the instructions in the loop at `a`. -/
def mulBody (a : UInt32) : List UInt32 := [a, a + 2, a + 8, a + 10]

/-- The code of the loop, from `a` on. -/
structure MulCode (S : Site) (a : UInt32) : Prop where
  add : S.code a (.alu .add .ebx .eax)
  one : S.code (a + 2) (.constant 1 .edx)
  count : S.code (a + 2 + 6) (.alu .add .edx .ecx)
  again : S.code (a + 2 + 6 + 2) (.jump .ne a)

namespace MulCode

/-- One pass of the loop. -/
theorem leads_pass (h : S.MulCode a) :
    S.LeadsBy (· = mulBody a) (Working a d st (work si di p b c))
      (Working (if c + 1 = 0 then a + 2 + 6 + 2 + 5 else a) d st
        (work si di (p + b) b (c + 1))) := by
  have htrace : [a, a + 2, a + 2 + 6, a + 2 + 6 + 2] = mulBody a := by simp [mulBody, add_assoc]
  refine leadsBy_working htrace fun r f hr => ?_
  have ha : r.get .eax = p := hr .eax rfl
  have hb : r.get .ebx = b := hr .ebx rfl
  have hc : r.get .ecx = c := hr .ecx rfl
  refine ⟨_, .step h.add (.alu .add .ebx .eax (by decide) (by decide)) (.step h.one
    (.constant 1 .edx (by decide)) (.step h.count (.alu .add .edx .ecx (by decide) (by decide))
    (.step h.again (.jump .ne a) (.refl _)))), ?_⟩
  refine ⟨?_, rfl, rfl, fun q hq => ?_⟩
  · simp [Condition.holds, AluOp.flags, AluOp.result, hc]
  · cases q with
    | eax => simp [AluOp.result, ha, hb]
    | ebx => simp [hb]
    | ecx => simp [AluOp.result, hc]
    | esi => exact hr .esi rfl
    | edi => exact hr .edi rfl
    | edx | esp | ebp => cases hq

/-- **The loop adds repeatedly**, as often as the counter says. -/
theorem leads_mulLoop (h : S.MulCode a) {k : Nat} (hk : k + 1 < 2 ^ 32) :
    S.LeadsBy (· = (List.replicate (k + 1) (mulBody a)).flatten)
      (Working a d st (work si di p b (negWord (k + 1))))
      (Working (a + 2 + 6 + 2 + 5) d st (work si di (p + UInt32.ofNat (k + 1) * b) b 0)) := by
  induction k generalizing p with
  | zero =>
    have hpass : S.LeadsBy (· = mulBody a) (Working a d st (work si di p b (negWord 1))) _ :=
      h.leads_pass
    have h0 : negWord 1 + 1 = 0 := rfl
    have h1 : UInt32.ofNat 1 * b = b := by grind
    rw [h0, if_pos rfl] at hpass
    rw [h1]
    exact hpass.mono fun _ ht => by simp [ht]
  | succ k ih =>
    have hpass : S.LeadsBy (· = mulBody a)
        (Working a d st (work si di p b (negWord (k + 1 + 1)))) _ :=
      h.leads_pass
    have hc : negWord (k + 1 + 1) + 1 = negWord (k + 1) := by
      unfold negWord
      rw [UInt32.ofNat_add (k + 1) 1]
      grind
    have hne : negWord (k + 1) ≠ 0 := by
      intro h0
      have h0' : UInt32.ofNat (k + 1) = 0 := by
        unfold negWord at h0
        grind
      have := congrArg UInt32.toNat h0'
      rw [UInt32.toNat_ofNat', Nat.mod_eq_of_lt (by omega)] at this
      exact absurd this (by simp)
    have hp : p + UInt32.ofNat (k + 1 + 1) * b = p + b + UInt32.ofNat (k + 1) * b := by
      rw [UInt32.ofNat_add (k + 1) 1]
      grind
    rw [hc, if_neg hne] at hpass
    rw [hp]
    refine hpass.trans (ih (p := p + b) (by omega)) fun t u ht hu => ?_
    rw [ht, hu, List.replicate_succ (n := k + 1), List.flatten_cons]

/-- From zero on, the loop leaves the negated product of the magnitudes. -/
theorem leads_product (h : S.MulCode a) (hC : 0 < C) (hC' : C ≤ 2 ^ 31) :
    S.LeadsBy (Turns (mulBody a) (2 ^ 33) C)
      (Working a d st (work si di 0 (negWord B) (negWord C)))
      (Working (a + 2 + 6 + 2 + 5) d st (work si di (negWord (B * C)) (negWord B) 0)) := by
  obtain ⟨k, rfl⟩ : ∃ k, C = k + 1 := ⟨C - 1, by omega⟩
  have hsum : negWord (B * (k + 1)) = 0 + UInt32.ofNat (k + 1) * negWord B := by
    rw [negWord, negWord, UInt32.ofNat_mul]
    grind
  rw [hsum]
  refine (h.leads_mulLoop (by omega)).mono ?_
  rintro _ rfl
  refine ⟨?_, .whole _ _⟩
  have hbody : (mulBody a).length = 4 := rfl
  rw [List.length_flatten, List.map_replicate, List.sum_replicate, hbody, smul_eq_mul]
  omega

end MulCode

/-- The factor with the smaller magnitude counts. -/
theorem leads_mulOrder {l : UInt32} (h1 : S.code a (.move .always .ecx .edx))
    (h2 : S.code (a + 2) (.alu .sub .ebx .edx)) (h3 : S.code (a + 2 + 2) (.jump .ge l))
    (h4 : S.code (a + 2 + 2 + 5) (.move .always .ebx .edx))
    (h5 : S.code (a + 2 + 2 + 5 + 2) (.move .always .ecx .ebx))
    (h6 : S.code (a + 2 + 2 + 5 + 2 + 2) (.move .always .edx .ecx))
    (hl : a + 2 + 2 + 5 + 2 + 2 + 2 = l) :
    S.Leads 6 (Working a d st (work si di p b c)) (Working l d st
      (if signed b ≤ signed c then work si di p b c else work si di p c b)) := by
  have hge : _ ↔ signed b ≤ signed c := holds_flags_sub .ge b c
  have hcompare : S.Leads 3 (Working a d st (work si di p b c))
      (Working (if signed b ≤ signed c then l else a + 2 + 2 + 5) d st (work si di p b c)) := by
    refine leads_working [a, a + 2, a + 2 + 2] (Nat.le_refl 3) fun r f hr => ?_
    have hb : r.get .ebx = b := hr .ebx rfl
    have hc : r.get .ecx = c := hr .ecx rfl
    refine ⟨_, .step h1 (.move .always .ecx .edx (by decide) (by decide)) (.step h2
      (.alu .sub .ebx .edx (by decide) (by decide)) (.step h3 (.jump .ge l) (.refl _))), ?_⟩
    refine ⟨if_congr ?_ rfl rfl, rfl, rfl, fun q hq => ?_⟩
    · simpa [Condition.holds, hb, hc] using hge
    · have hedx : q ≠ .edx := by rintro rfl; cases hq
      simp [Condition.holds, hedx, hr q hq]
  have hswap : S.Leads 3 (Working (a + 2 + 2 + 5) d st (work si di p b c))
      (Working l d st (work si di p c b)) := by
    refine leads_working [a + 2 + 2 + 5, a + 2 + 2 + 5 + 2, a + 2 + 2 + 5 + 2 + 2]
      (Nat.le_refl 3) fun r f hr => ?_
    have hb : r.get .ebx = b := hr .ebx rfl
    have hc : r.get .ecx = c := hr .ecx rfl
    refine ⟨_, .step h4 (.move .always .ebx .edx (by decide) (by decide)) (.step h5
      (.move .always .ecx .ebx (by decide) (by decide)) (.step h6
      (.move .always .edx .ecx (by decide) (by decide)) (.refl _))), ?_⟩
    refine ⟨hl, rfl, rfl, fun q hq => ?_⟩
    cases q with
    | eax => exact hr .eax rfl
    | ebx => exact hc
    | ecx => exact hb
    | esi => exact hr .esi rfl
    | edi => exact hr .edi rfl
    | edx | esp | ebp => cases hq
  by_cases h : signed b ≤ signed c
  · rw [if_pos h] at hcompare ⊢
    exact hcompare.mono (by omega)
  · rw [if_neg h] at hcompare ⊢
    exact hcompare.trans hswap

/-- The loop as a whole leaves the negated product of the magnitudes. It is gone through as often as
the smaller one says. -/
theorem leads_multiplyLoop (si di : UInt32) (st : OperandStack) {n : Int}
    (hp : S.Placed a (multiplyLoop n)) {e l : UInt32}
    (he : S.labels.address? (mulDone n) = some e)
    (hl : S.labels.address? (localLabel "mul_loop" n) = some l)
    (hB : 0 < B) (hB' : B ≤ 2 ^ 31) (hC : 0 < C) (hC' : C ≤ 2 ^ 31) :
    ∃ b, S.LeadsBy (Turns (mulBody l) (2 ^ 33 + 9) (min B C))
      (Working a d (s :: st) (work si di 0 (negWord B) (negWord C)))
      (Working (if signed s < 0 then e else behind a (multiplyLoop n)) d st
        (work si di (negWord (B * C)) b 0)) := by
  have hend : behind a (multiplyLoop n) =
      a + 2 + 2 + 5 + 2 + 2 + 2 + 2 + 6 + 2 + 5 + 2 + 2 + 5 := by
    simp [multiplyLoop, copy, goto, setTo, Instruction.length]
  simp [multiplyLoop, copy, goto, setTo, resolve?, Ref.resolve?, Instruction.length, he] at hp
  generalize hstart : a + 2 + 2 + 5 + 2 + 2 + 2 = l' at hp hend
  obtain ⟨h1, h2, ⟨o, ho, h3⟩, h4, h5, h6, ho', hl', h7, h8, h9, ⟨l'', hl'', h10⟩, h11, h12, h13⟩ :=
    hp
  obtain rfl := Option.some.inj (ho'.symm.trans ho)
  obtain rfl := Option.some.inj (hl.symm.trans hl')
  obtain rfl := Option.some.inj (hl.symm.trans hl'')
  have hcode : S.MulCode l := ⟨h7, h8, h9, h10⟩
  have away : ∀ c ∈ [a, a + 2, a + 2 + 2, a + 2 + 2 + 5, a + 2 + 2 + 5 + 2, a + 2 + 2 + 5 + 2 + 2,
      l + 2 + 6 + 2 + 5, l + 2 + 6 + 2 + 5 + 2, l + 2 + 6 + 2 + 5 + 2 + 2], c ∉ mulBody l := by
    rw [← hstart]
    simp [mulBody, add_assoc]
  have horder : S.LeadsBy (Outside (mulBody l) 6)
      (Working a d (s :: st) (work si di 0 (negWord B) (negWord C))) _ :=
    (leads_mulOrder (S := S.only (· ∉ mulBody l)) ⟨h1, away _ (by simp)⟩ ⟨h2, away _ (by simp)⟩
      ⟨h3, away _ (by simp)⟩ ⟨h4, away _ (by simp)⟩ ⟨h5, away _ (by simp)⟩ ⟨h6, away _ (by simp)⟩
      hstart).outside (exists_working ..)
  have hsign (b : UInt32) : S.LeadsBy (Outside (mulBody l) 3)
      (Working _ d (s :: st) (work si di (negWord (B * C)) b 0)) _ :=
    (leads_takeSign (S := S.only (· ∉ mulBody l)) ⟨h11, away _ (by simp)⟩ ⟨h12, away _ (by simp)⟩
      ⟨h13, away _ (by simp)⟩).outside (exists_working ..)
  have hneg : _ ↔ signed s < 0 := holds_flags_and_self .l s
  simp only [hneg, ← hend] at hsign
  rw [signed_negWord hB', signed_negWord hC'] at horder
  by_cases h : C ≤ B
  · rw [if_pos (by omega)] at horder
    rw [Nat.min_eq_right h]
    have hloop := horder.trans (hcode.leads_product hC hC') fun _ _ => Turns.prepend
    have hleads := hloop.trans (hsign _) fun _ _ => Turns.append
    exact ⟨_, hleads.mono fun _ h => h.mono (by omega)⟩
  · rw [if_neg (by omega)] at horder
    rw [Nat.min_eq_left (by omega)]
    -- the factors have changed places, and so have those of the product
    have hloop := horder.trans (hcode.leads_product hB hB') fun _ _ => Turns.prepend
    rw [Nat.mul_comm C B] at hloop
    have hleads := hloop.trans (hsign _) fun _ _ => Turns.append
    exact ⟨_, hleads.mono fun _ h => h.mono (by omega)⟩

/-! ### Operands and result -/

/-- Both factors are taken from the stack. If one of them is zero, the product is there at once. -/
theorem leads_multiplyOperands {n : Int} (hp : S.Placed a (multiplyOperands n)) {e : UInt32}
    (he : S.labels.address? (mulDone n) = some e) (hroom : 4 * (st.length + 1) ≤ S.capacity) :
    S.Leads 10 (At a si di d (y :: x :: st))
      (if x = 0 ∨ y = 0 then Working e d st (work si di 0 x y)
        else Working (behind a (multiplyOperands n)) d ((x ^^^ y) :: st) (work si di 0 x y)) := by
  have hend : behind a (multiplyOperands n) = a + 2 + 2 + 2 + 2 + 5 + 2 + 5 + 2 + 2 + 2 := by
    simp [multiplyOperands, copy, goto, Instruction.length]
  simp [multiplyOperands, copy, goto, resolve?, Ref.resolve?, Instruction.length, he] at hp
  obtain ⟨h1, h2, h3, h4, h5, h6, h7, h8, h9, h10⟩ := hp
  have hops : S.Leads 3 (At a si di d (y :: x :: st)) _ := leads_operands h1 h2 h3
  have hy : S.Leads 2 (Working _ d st (work si di 0 x y)) _ := leads_testZero rfl h4 h5
  have hx : S.Leads 2 (Working _ d st (work si di 0 x y)) _ := leads_testZero rfl h6 h7
  rw [get_work_ecx] at hy
  rw [get_work_ebx] at hx
  by_cases hy0 : y = 0
  · rw [if_pos (.inr hy0)]
    rw [if_pos hy0] at hy
    exact (hops.trans hy).mono (by omega)
  · rw [if_neg hy0] at hy
    by_cases hx0 : x = 0
    · rw [if_pos (.inl hx0)]
      rw [if_pos hx0] at hx
      exact ((hops.trans hy).trans hx).mono (by omega)
    · rw [if_neg (not_or.2 ⟨hx0, hy0⟩), hend]
      rw [if_neg hx0] at hx
      exact ((hops.trans hy).trans hx).trans (leads_keepSign h8 h9 h10 hroom)

/-- The part of a multiplication before its loop. -/
def multiplyFront (n : Int) : List Line :=
  multiplyOperands n ++ nonPositive .ebx .edx (localLabel "mul_neg_a" n) ++
    nonPositive .ecx .edx (localLabel "mul_neg_b" n)

theorem multiply_eq (n : Int) :
    multiply n = multiplyFront n ++ multiplyLoop n ++ negate .eax .edx ++ pushResult (mulDone n) :=
  rfl

section front

variable {n : Int} (hp : S.Placed a (multiplyFront n)) {e : UInt32}
  (he : S.labels.address? (mulDone n) = some e) (hroom : 4 * (st.length + 1) ≤ S.capacity)

include hp he hroom

theorem leads_multiplyFront_zero (h0 : x = 0 ∨ y = 0) :
    S.Leads 10 (At a si di d (y :: x :: st)) (Working e d st (work si di 0 x y)) := by
  unfold multiplyFront at hp
  simp only [placed_append] at hp
  have hops : S.Leads 10 (At a si di d (y :: x :: st)) _ := leads_multiplyOperands hp.1.1 he hroom
  rwa [if_pos h0] at hops

/-- Before the loop there are the negated magnitudes of both factors. -/
theorem leads_multiplyFront (h0 : ¬ (x = 0 ∨ y = 0)) :
    S.Leads 20 (At a si di d (y :: x :: st))
      (Working (behind a (multiplyFront n)) d ((x ^^^ y) :: st)
        (work si di 0 (negWord (signed x).natAbs) (negWord (signed y).natAbs))) := by
  unfold multiplyFront at hp ⊢
  simp only [placed_append, behind_append] at hp ⊢
  obtain ⟨⟨h1, h2⟩, h3⟩ := hp
  have hops : S.Leads 10 (At a si di d (y :: x :: st)) _ := leads_multiplyOperands h1 he hroom
  rw [if_neg h0] at hops
  have hmags := (hops.trans (leads_nonPositive rfl h2)).trans (leads_nonPositive rfl h3)
  simp only [get_work_ebx, set_work_ebx, get_work_ecx, set_work_ecx,
    negMagnitude_eq_negWord] at hmags
  exact hmags

end front

/-- Behind the loop the product gets its sign. -/
theorem leads_multiplyBack {done : String} {k : Nat} (hn : S.Placed a (negate .eax .edx))
    (hp : S.Placed (behind a (negate .eax .edx)) (pushResult done))
    (hroom : 4 * (st.length + 1) ≤ S.capacity) (s : UInt32) :
    S.Leads 4
      (Working (if signed s < 0 then behind a (negate .eax .edx) else a) d st
        (work si di (negWord k) b c))
      (Left (behind (behind a (negate .eax .edx)) (pushResult done)) si di d
        ((if signed s < 0 then negWord k else UInt32.ofNat k) :: st) (some b)) := by
  by_cases hs : signed s < 0
  · rw [if_pos hs, if_pos hs]
    exact (leads_pushResult hp hroom).mono (by omega)
  · rw [if_neg hs, if_neg hs]
    have hneg : S.Leads 3 (Working a d st (work si di (negWord k) b c)) _ := leads_negate rfl hn
    rw [get_work_eax, set_work_eax, negWord, UInt32.neg_neg] at hneg
    exact hneg.trans (leads_pushResult hp hroom)

theorem mulLoop_label {n : Int} (hp : S.Placed a (multiply n)) :
    S.labels.address? (localLabel "mul_loop" n) = some (a + 67) := by
  simp only [multiply_eq, placed_append] at hp
  have hloop := hp.1.1.2
  have hstart : behind a (multiplyFront n) = a + 52 := by
    simp [multiplyFront, multiplyOperands, nonPositive, negate, copy, goto, Instruction.length,
      add_assoc]
  simp [hstart, multiplyLoop, copy, goto, setTo, Instruction.length, add_assoc] at hloop
  exact hloop.2.2.2.2.2.2.2.1

section multiply

variable {n : Int} (hp : S.Placed a (multiply n)) (hroom : 4 * (st.length + 1) ≤ S.capacity)

include hp hroom

/-- **Multiplication**, with the number of rounds that its loop makes. -/
theorem leadsBy_multiply (si di : UInt32) :
    ∃ b, S.LeadsBy (Turns (mulBody (a + 67)) (2 ^ 34) (min (signed x).natAbs (signed y).natAbs))
      (At a si di d (y :: x :: st))
      (Left (behind a (multiply n)) si di d (x * y :: st) (some b)) := by
  have hl := mulLoop_label hp
  simp only [multiply_eq, placed_append, behind_append] at hp ⊢
  obtain ⟨⟨⟨hfront, hloop⟩, hneg⟩, hpush⟩ := hp
  have he := ((placed_mark _).1 hpush).1
  -- All but the loop is placed without its body.
  have hfront' := hfront.only (p := (· ∉ mulBody (a + 67)))
    (by simp [mulBody, multiplyFront, multiplyOperands, nonPositive, negate, copy, goto,
      Instruction.length, add_assoc])
  have hneg' := hneg.only (p := (· ∉ mulBody (a + 67)))
    (by simp [mulBody, multiplyFront, multiplyOperands, multiplyLoop, nonPositive, negate, copy,
      goto, setTo, Instruction.length, add_assoc])
  have hpush' := hpush.only (p := (· ∉ mulBody (a + 67)))
    (by simp [mulBody, multiplyFront, multiplyOperands, multiplyLoop, nonPositive, negate,
      pushResult, copy, goto, setTo, Instruction.length, add_assoc])
  by_cases h0 : x = 0 ∨ y = 0
  · have hxy : x * y = 0 := by grind
    have hmin : min (signed x).natAbs (signed y).natAbs = 0 := by
      have hs : signed 0 = 0 := rfl
      rcases h0 with rfl | rfl
      · rw [hs]; exact Nat.zero_min _
      · rw [hs]; exact Nat.min_zero _
    have hpushed := ((leads_multiplyFront_zero hfront' he hroom h0).trans
      (leads_pushResult hpush' hroom)).outside (exists_at a si di d _)
    rw [hxy, hmin]
    exact ⟨x, hpushed.mono fun _ h => h.turns.mono (by omega)⟩
  · have hmags := (leads_multiplyFront hfront' he hroom h0).outside (exists_at a si di d _)
    obtain ⟨hx, hy⟩ := not_or.1 h0
    have hx' : signed x ≠ 0 := fun h => hx (Y86.signed_inj.1 h)
    have hy' : signed y ≠ 0 := fun h => hy (Y86.signed_inj.1 h)
    have := Y86.le_signed x
    have := Y86.signed_lt x
    have := Y86.le_signed y
    have := Y86.signed_lt y
    obtain ⟨b, hproduct⟩ := leads_multiplyLoop si di st (s := x ^^^ y) (d := d)
      (B := (signed x).natAbs) (C := (signed y).natAbs) hloop he hl (by omega) (by omega)
      (by omega) (by omega)
    have hsigned := (hmags.trans hproduct fun _ _ => Turns.prepend).trans
      ((leads_multiplyBack hneg' hpush' hroom (x ^^^ y)).outside (exists_working ..))
      fun _ _ => Turns.append
    rw [mul_eq_natAbs_mul]
    exact ⟨b, hsigned.mono fun _ h => h.mono (by omega)⟩

theorem leads_multiply :
    ∃ b, S.Leads (2 ^ 34) (At a si di d (y :: x :: st))
      (Left (behind a (multiply n)) si di d (x * y :: st) (some b)) := by
  obtain ⟨b, h⟩ := leadsBy_multiply hp hroom si di (x := x) (y := y)
  exact ⟨b, h.mono fun _ h => h.length⟩

end multiply

end Site

end RpnY86.Code
