import RpnY86.Proofs.Code.Placed
import RpnY86.Proofs.Y86.Signed

/-! # Guards and operations without loops

What the parts of a fragment do to the operands and the depth. The two guards compare exactly:
`leads_requireDepth` goes to its handler just if the depth is below the number of operands, and
`leads_requireRoom` just if depth and room together exceed the capacity, although that sum is never
formed. -/

namespace RpnY86.Code.Site

open Y86 (AluOp Condition Flags Instruction Machine Memory Reg Registers signed)
open Y86.Condition (holds_flags_add_ge holds_flags_sub)

variable {S : Site} {a si di d x y : UInt32} {st : OperandStack}

/-- The cell of the depth has address `si`, and behind it stands the capacity. -/
structure HasCapacity (S : Site) (si capacity : UInt32) : Prop where
  cell : S.zone.cell = some si
  inMemory : (4 + si).toNat + 4 ≤ S.home.size
  outside : ∀ k < 4, ¬ S.zone.Covers ((4 + si).toNat + k)
  value : S.home.wordAt (4 + si).toNat = capacity

/-! ### The code of guards -/

section code

variable {n : Int}

theorem code_of_requireDepth (hn : 1 ≤ n) (hp : S.Placed a (requireDepth n)) :
    S.code a (.load 0 (some .esi) .edx) ∧
      S.code (a + 6) (.constant (UInt32.ofInt n) .ecx) ∧
      S.code (a + 6 + 6) (.alu .sub .ecx .edx) ∧
      ∃ handler, S.labels.address? stackError = some handler ∧
        S.code (a + 6 + 6 + 2) (.jump .l handler) ∧
        behind a (requireDepth n) = a + 6 + 6 + 2 + 5 := by
  have h0 : UInt32.ofInt 0 = 0 := rfl
  rw [requireDepth, if_neg (by omega)] at hp ⊢
  simp [loadDepth, loadAt, setTo, goto, resolve?, Ref.resolve?, Instruction.length, h0] at hp ⊢
  exact hp

/-- One more value needs no sum. -/
theorem code_of_requireRoom (hn : 1 ≤ n) (hp : S.Placed a (requireRoom n)) :
    S.code a (.load 0 (some .esi) .edx) ∧
      S.code (a + 6) (.load 4 (some .esi) .ecx) ∧
      S.code (a + 6 + 6) (.alu .sub .ecx .edx) ∧
      ∃ handler, S.labels.address? stackTooFull = some handler ∧
        (n = 1 ∧ S.code (a + 6 + 6 + 2) (.jump .ge handler) ∧
            behind a (requireRoom n) = a + 6 + 6 + 2 + 5 ∨
          1 < n ∧ S.code (a + 6 + 6 + 2) (.constant (UInt32.ofInt (n - 1)) .ecx) ∧
            S.code (a + 6 + 6 + 2 + 6) (.alu .add .ecx .edx) ∧
            S.code (a + 6 + 6 + 2 + 6 + 2) (.jump .ge handler) ∧
            behind a (requireRoom n) = a + 6 + 6 + 2 + 6 + 2 + 5) := by
  have h0 : UInt32.ofInt 0 = 0 := rfl
  have h4 : UInt32.ofInt 4 = 4 := rfl
  rw [requireRoom, if_neg (by omega)] at hp ⊢
  by_cases h1 : 1 < n
  · have hne : n ≠ 1 := by omega
    simp [loadDepth, loadAt, setTo, goto, capacityOffset, resolve?, Ref.resolve?,
      Instruction.length, h0, h4, h1, hne] at hp ⊢
    obtain ⟨hdepth, hcapacity, hsub, hconstant, hadd, handler, hlabel, hjump⟩ := hp
    exact ⟨hdepth, hcapacity, hsub, handler, hlabel, hconstant, hadd, hjump⟩
  · obtain rfl : n = 1 := by omega
    simp [loadDepth, loadAt, goto, capacityOffset, resolve?, Ref.resolve?, Instruction.length, h0,
      h4] at hp ⊢
    exact hp

theorem code_of_adjustDepth (hn : n ≠ 0) (hp : S.Placed a (adjustDepth n)) :
    S.code a (.load 0 (some .esi) .edx) ∧
      S.code (a + 6) (.constant (UInt32.ofInt n) .ecx) ∧
      S.code (a + 6 + 6) (.alu .add .ecx .edx) ∧
      S.code (a + 6 + 6 + 2) (.store .edx 0 (some .esi)) ∧
      behind a (adjustDepth n) = a + 6 + 6 + 2 + 6 := by
  have h0 : UInt32.ofInt 0 = 0 := rfl
  rw [adjustDepth, if_neg hn] at hp ⊢
  simp [loadDepth, loadAt, setTo, resolve?, Ref.resolve?, Instruction.length, h0] at hp ⊢
  exact hp

end code

/-! ### Guards -/

/-- The flags of the guard for one more value. -/
theorem holds_flags_roomForOne (cap d : UInt32) :
    Condition.ge.holds (AluOp.sub.flags cap d) = true ↔ signed cap < signed d + 1 := by
  have h : _ ↔ signed cap ≤ signed d := holds_flags_sub .ge cap d
  exact h.trans (by omega)

/-- The flags of the guard for more values. The sum of depth and `n` may not fit in a word, the
difference to the capacity does. -/
theorem holds_flags_room {n : Int} {cap d : UInt32} (hn : 1 < n) (hn' : n < 2 ^ 31)
    (hcap : 0 ≤ signed cap) (hd : 0 ≤ signed d) :
    Condition.ge.holds (AluOp.add.flags (UInt32.ofInt (n - 1)) (d - cap)) = true ↔
      signed cap < signed d + n := by
  have := Y86.signed_lt d
  have := Y86.signed_lt cap
  have h := holds_flags_add_ge (UInt32.ofInt (n - 1)) (d - cap)
  rw [Y86.signed_ofInt (by omega) (by omega), Y86.signed_sub_of_fits (by omega) (by omega)] at h
  exact h.trans (by omega)

/-- A view after a comparison. -/
structure Compared (pc si di d : UInt32) (st : OperandStack) (k : Option UInt32) (f : Flags)
    (v : View) : Prop extends Left pc si di d st k v where
  flags : v.flags = f

theorem leads_compareDepth {n : UInt32} (h1 : S.code a (.load 0 (some .esi) .edx))
    (h2 : S.code (a + 6) (.constant n .ecx)) (h3 : S.code (a + 6 + 6) (.alu .sub .ecx .edx))
    (hc : S.zone.cell = some si) {k : Option UInt32} :
    S.Leads 3 (Left a si di d st k)
      (Compared (a + 6 + 6 + 2) si di d st k (AluOp.sub.flags n d)) := by
  refine ⟨[a, a + 6, a + 6 + 6], Nat.le_refl 3, ?_⟩
  rintro ⟨_, r, f, _, _⟩ ⟨⟨rfl, rfl, rfl, hsi, hdi⟩, hk⟩
  have hcell : S.zone.cell = some (0 + r.esi) := by rw [hc, ← hsi, UInt32.zero_add]
  refine ⟨_, .step h1 (.loadCell 0 .esi .edx (by decide) (by decide) hcell) (.step h2
    (.constant n .ecx (by decide)) (.step h3 (.alu .sub .ecx .edx (by decide) (by decide))
    (.refl _))), ?_⟩
  exact ⟨⟨⟨rfl, rfl, rfl, hsi, hdi⟩, hk⟩, rfl⟩

theorem leads_jump {f : Flags} {c : Condition} {b : UInt32} {k : Option UInt32}
    (h : S.code a (.jump c b)) :
    S.Leads 1 (Compared a si di d st k f)
      (Compared (if c.holds f then b else a + 5) si di d st k f) := by
  refine ⟨[a], Nat.le_refl 1, ?_⟩
  rintro ⟨_, r, _, _, _⟩ ⟨⟨⟨rfl, rfl, rfl, rfl, rfl⟩, hk⟩, rfl⟩
  exact ⟨_, .step h (.jump c b) (.refl _), ⟨⟨rfl, rfl, rfl, rfl, rfl⟩, hk⟩, rfl⟩

/-- **The guard of the operands.** -/
theorem leads_requireDepth {n : Int} (hn : 0 < n) (hn' : n < 2 ^ 31)
    (hp : S.Placed a (requireDepth n)) (hc : S.zone.cell = some si) {b : UInt32}
    (hb : S.labels.address? stackError = some b) :
    S.Leads 4 (At a si di d st)
      (At (if signed d < n then b else behind a (requireDepth n)) si di d st) := by
  have hl : _ ↔ signed d < signed (UInt32.ofInt n) := holds_flags_sub .l (UInt32.ofInt n) d
  rw [Y86.signed_ofInt (by omega) hn'] at hl
  obtain ⟨h1, h2, h3, handler, hlabel, h4, hbehind⟩ := code_of_requireDepth hn hp
  obtain rfl : handler = b := Option.some.inj (hlabel.symm.trans hb)
  have hlead : S.Leads 4 (Left a si di d st none) _ :=
    (leads_compareDepth h1 h2 h3 hc).trans (leads_jump h4)
  simp only [hl, ← hbehind] at hlead
  exact hlead.weaken (fun _ hv => hv.left) fun _ hv => hv.toAt

/-- A view after an operation on `%edx`. -/
structure Computed (pc si di d : UInt32) (st : OperandStack) (f : Flags) (x : UInt32) (v : View) :
    Prop extends Compared pc si di d st none f v where
  edx : v.registers.get .edx = x

theorem leads_compareCapacity {cap : UInt32} (h1 : S.code a (.load 0 (some .esi) .edx))
    (h2 : S.code (a + 6) (.load 4 (some .esi) .ecx)) (h3 : S.code (a + 6 + 6) (.alu .sub .ecx .edx))
    (hc : S.HasCapacity si cap) :
    S.Leads 3 (At a si di d st)
      (Computed (a + 6 + 6 + 2) si di d st (AluOp.sub.flags cap d) (d - cap)) := by
  refine leads_at [a, a + 6, a + 6 + 6] (Nat.le_refl 3) fun r f hsi hdi => ?_
  subst hsi
  have hcell : S.zone.cell = some (0 + r.esi) := by rw [hc.cell, UInt32.zero_add]
  obtain rfl := hc.value
  refine ⟨_, .step h1 (.loadCell 0 .esi .edx (by decide) (by decide) hcell) (.step h2
    (.loadHome 4 .esi .ecx (by decide) (by decide) (by exact hc.inMemory) (by exact hc.outside))
    (.step h3 (.alu .sub .ecx .edx (by decide) (by decide)) (.refl _))), ?_⟩
  exact ⟨⟨At.left ⟨rfl, rfl, rfl, rfl, hdi⟩, rfl⟩, rfl⟩

theorem leads_addTo {f : Flags} {k : UInt32} (h1 : S.code a (.constant k .ecx))
    (h2 : S.code (a + 6) (.alu .add .ecx .edx)) :
    S.Leads 2 (Computed a si di d st f x)
      (Compared (a + 6 + 2) si di d st none (AluOp.add.flags k x)) := by
  refine ⟨[a, a + 6], Nat.le_refl 2, ?_⟩
  rintro ⟨_, r, f, _, _⟩ ⟨⟨⟨⟨rfl, rfl, rfl, rfl, rfl⟩, -⟩, rfl⟩, rfl⟩
  exact ⟨_, .step h1 (.constant k .ecx (by decide)) (.step h2
    (.alu .add .ecx .edx (by decide) (by decide)) (.refl _)), At.left ⟨rfl, rfl, rfl, rfl, rfl⟩, rfl⟩

/-- **The guard of the room.** -/
theorem leads_requireRoom {n : Int} (hn : 0 < n) (hn' : n < 2 ^ 31)
    (hp : S.Placed a (requireRoom n)) {cap : UInt32} (hc : S.HasCapacity si cap)
    (hd : 0 ≤ signed d) (hcap : 0 ≤ signed cap) {b : UInt32}
    (hb : S.labels.address? stackTooFull = some b) :
    S.Leads 6 (At a si di d st)
      (At (if signed cap < signed d + n then b else behind a (requireRoom n)) si di d st) := by
  obtain ⟨h1, h2, h3, handler, hlabel, hrest⟩ := code_of_requireRoom hn hp
  obtain rfl : handler = b := Option.some.inj (hlabel.symm.trans hb)
  rcases hrest with ⟨rfl, h4, hbehind⟩ | ⟨h1n, h4, h5, h6, hbehind⟩
  · have hcompare : S.Leads 3 (At a si di d st)
        (Compared (a + 6 + 6 + 2) si di d st none (AluOp.sub.flags cap d)) :=
      (leads_compareCapacity h1 h2 h3 hc).weaken (fun _ hv => hv) fun _ hv => hv.toCompared
    have hlead := hcompare.trans (leads_jump h4)
    simp only [holds_flags_roomForOne, ← hbehind] at hlead
    exact (hlead.mono (by omega)).weaken (fun _ hv => hv) fun _ hv => hv.toAt
  · have hlead : S.Leads 6 (At a si di d st) _ :=
      ((leads_compareCapacity h1 h2 h3 hc).trans (leads_addTo h4 h5)).trans (leads_jump h6)
    simp only [holds_flags_room h1n hn' hcap hd, ← hbehind] at hlead
    exact hlead.weaken (fun _ hv => hv) fun _ hv => hv.toAt

/-! ### The depth -/

theorem leads_adjustDepth {n : Int} (hn : n ≠ 0) (hp : S.Placed a (adjustDepth n))
    (hc : S.zone.cell = some si) {b : Option UInt32} :
    S.Leads 4 (Left a si di d st b)
      (Left (behind a (adjustDepth n)) si di (d + UInt32.ofInt n) st b) := by
  obtain ⟨h1, h2, h3, h4, hbehind⟩ := code_of_adjustDepth hn hp
  refine ⟨[a, a + 6, a + 6 + 6, a + 6 + 6 + 2], by simp, ?_⟩
  rintro ⟨_, r, f, _, _⟩ ⟨⟨rfl, rfl, rfl, hsi, hdi⟩, hb⟩
  have hcell : S.zone.cell = some (0 + r.esi) := by rw [hc, ← hsi, UInt32.zero_add]
  refine ⟨_, .step h1 (.loadCell _ .esi .edx (by decide) (by decide) hcell) (.step h2
    (.constant _ .ecx (by decide)) (.step h3 (.alu .add .ecx .edx (by decide) (by decide))
    (.step h4 (.storeCell .edx 0 .esi (by decide) (by decide) (by exact hcell)) (.refl _)))), ?_⟩
  exact ⟨⟨hbehind.symm, rfl, rfl, hsi, hdi⟩, hb⟩

/-! ### Operations -/

theorem leads_pushNumber {n : Int} (hp : S.Placed a (pushNumber n))
    (hr : 4 * (st.length + 1) ≤ S.capacity) :
    S.Leads 2 (At a si di d st)
      (At (behind a (pushNumber n)) si di d (UInt32.ofInt n :: st)) := by
  simp [pushNumber, setTo, resolve?, Ref.resolve?, Instruction.length] at hp
  obtain ⟨h1, h2⟩ := hp
  refine leads_at [a, a + 6] (by simp) fun r f hsi hdi => ?_
  exact ⟨_, .step h1 (.constant _ .ecx (by decide)) (.step h2 (.push .ecx (by decide) hr)
    (.refl _)), rfl, rfl, rfl, hsi, hdi⟩

theorem leads_duplicate (hp : S.Placed a duplicate) (hr : 4 * (st.length + 2) ≤ S.capacity) :
    S.Leads 3 (At a si di d (x :: st))
      (Left (behind a duplicate) si di d (x :: x :: st) (some x)) := by
  simp [duplicate, resolve?, Instruction.length] at hp
  obtain ⟨h1, h2, h3⟩ := hp
  refine leads_at [a, a + 2, a + 2 + 2] (by simp) fun r f hsi hdi => ?_
  exact ⟨_, .step h1 (.pop .ebx (by decide)) (.step h2 (.push .ebx (by decide) (by omega))
    (.step h3 (.push .ebx (by decide) (by exact hr)) (.refl _))), ⟨rfl, rfl, rfl, hsi, hdi⟩,
    fun _ h => Option.some.inj h⟩

theorem leads_exchange (hp : S.Placed a exchange) (hr : 4 * (st.length + 2) ≤ S.capacity) :
    S.Leads 4 (At a si di d (y :: x :: st))
      (Left (behind a exchange) si di d (x :: y :: st) (some x)) := by
  simp [exchange, resolve?, Instruction.length] at hp
  obtain ⟨h1, h2, h3, h4⟩ := hp
  refine leads_at [a, a + 2, a + 2 + 2, a + 2 + 2 + 2] (by simp) fun r f hsi hdi => ?_
  refine ⟨_, .step h1 (.pop .ecx (by decide)) (.step h2 (.pop .ebx (by decide)) (.step h3
    (.push .ecx (by decide) (by omega)) (.step h4 (.push .ebx (by decide) (by exact hr))
    (.refl _)))), ?_⟩
  exact ⟨⟨rfl, rfl, rfl, hsi, hdi⟩, fun _ h => Option.some.inj h⟩

theorem leads_arithmetic {op : AluOp} (hp : S.Placed a (arithmetic op))
    (hr : 4 * (st.length + 1) ≤ S.capacity) :
    S.Leads 4 (At a si di d (y :: x :: st))
      (Left (behind a (arithmetic op)) si di d (op.result y x :: st) (some (op.result y x))) := by
  simp [arithmetic, resolve?, Instruction.length] at hp
  obtain ⟨h1, h2, h3, h4⟩ := hp
  refine leads_at [a, a + 2, a + 2 + 2, a + 2 + 2 + 2] (by simp) fun r f hsi hdi => ?_
  exact ⟨_, .step h1 (.pop .ecx (by decide)) (.step h2 (.pop .ebx (by decide)) (.step h3
    (.alu op .ecx .ebx (by decide) (by decide)) (.step h4 (.push .ebx (by decide) (by exact hr))
    (.refl _)))), ⟨rfl, rfl, rfl, hsi, hdi⟩, fun _ h => Option.some.inj h⟩

end RpnY86.Code.Site
