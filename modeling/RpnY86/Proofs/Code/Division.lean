import RpnY86.Proofs.Code.Divide
import RpnY86.Proofs.Code.Embedded
import RpnY86.Proofs.Code.Spelling
import RpnY86.Proofs.Y86.Exact

/-! # Division in any program

The code of a division can stand in any program that is assembled, and be entered by any machine
with two operands on its stack (`Embedding.Enters`). From there it goes to the handler if the
divisor is zero, with both operands as they were, and otherwise to its end, with the quotient in
place of the operands (`Embedding.quotient_of_enters`). All else in memory stays as it was, and so
do `%esi` and `%edi`. -/

namespace RpnY86.Code

open Y86 (Instruction Machine Reg signed)

/-! ### Words -/

theorem toUInt32_div_eq_ofInt (x y : UInt32) :
    (x.toInt32 / y.toInt32).toUInt32 = UInt32.ofInt ((signed x).tdiv (signed y)) := by
  apply Y86.signed_inj.1
  rw [Y86.signed_ofInt_eq]
  exact Int32.toInt_div x.toInt32 y.toInt32

/-! ### Lines -/

theorem divide_eq_blank (n : Int) : divide n = .blank :: (divide n).tail := rfl

theorem exists_divide_eq (n : Int) :
    ∃ first l last, divide n = first ++ l :: .mark (divDone n) :: last := by
  refine ⟨divideOperands n ++ nonPositive .ebx .edx (localLabel "div_neg_a" n) ++
    nonPositive .ecx .edx (localLabel "div_neg_b" n) ++ divideLoop n ++ (negate .eax .edx).take 2,
    .op (copy .edx .eax), [.op (.push .eax)], ?_⟩
  simp [divide, negate, pushResult]

theorem isPlain_divide (n : Int) : ∀ l ∈ divide n, l.isPlain = true :=
  List.all_eq_true.1 rfl

theorem isCode_divide (n : Int) : ∀ l ∈ divide n, l.isCode = true :=
  List.all_eq_true.1 rfl

/-! ### The operation -/

theorem Site.exists_handler {S : Site} {a : UInt32} {n : Int} (hp : S.Placed a (divide n)) :
    ∃ z, S.labels.address? divideByZero = some z := by
  unfold divide at hp
  simp only [placed_append] at hp
  obtain ⟨⟨⟨⟨⟨h, -⟩, -⟩, -⟩, -⟩, -⟩ := hp
  simp [divideOperands, goto, resolve?, Ref.resolve?] at h
  obtain ⟨-, -, ⟨z, hz, -⟩, -⟩ := h
  exact ⟨z, hz⟩

theorem Embedding.exists_natCast {n : Int} (e : Embedding (divide n)) : ∃ m : Nat, n = m := by
  obtain ⟨first, l, last, heq⟩ := exists_divide_eq n
  exact e.exists_natCast_of_mark heq (by decide)

/-- **Division**, wherever its code stands, and for every two operands. -/
theorem Embedding.quotient_of_enters {n : Int} {e : Embedding (divide n)} {s : Machine}
    (h : e.Enters s) :
    let p := s.get .esp
    let b := s.memory.wordAt p.toNat
    let a := s.memory.wordAt (p + 4).toNat
    ∃ k zero double take,
      e.labels.address? "divide_by_zero" = some zero ∧
      e.labels.address? (localLabel "div_double" n) = some double ∧
      e.labels.address? (localLabel "div_take" n) = some take ∧
      Contained s k ∧
      let t := Machine.step^[k] s
      if b = 0 then
        t.pc = zero ∧ t.get .esp = p ∧ t.memory.wordAt p.toNat = b ∧
          t.memory.wordAt (p + 4).toNat = a
      else
        t.pc = e.address + 138 ∧ t.get .esp = p + 4 ∧
          t.memory.wordAt (p + 4).toNat = UInt32.ofInt ((signed a).tdiv (signed b)) ∧
          (path s k).count take ≤ 32 ∧
          ∀ u, u <:+: path s k → take ∉ u → u.count double ≤ 32 := by
  intro p b a
  obtain ⟨m, rfl⟩ := e.exists_natCast
  have hsize : size (divide m) = 138 := size_divide m
  have hk : size (divide m) ≤ 2 ^ 31 := by omega
  have hplaced := e.placed (divide_eq_blank m) (legible_divide m) (isCode_divide m)
    (isPlain_divide m) hk h.holds
  obtain ⟨zero, hzero⟩ := Site.exists_handler hplaced
  obtain ⟨hdouble, htake⟩ := Site.loop_labels hplaced
  by_cases hb : b = 0
  · have hrun : (Site.aside s.memory e.labels e.address _ hk).Leads 3
        (Site.At e.address (s.get .esi) (s.get .edi) 0 [b, a])
        (Site.At zero (s.get .esi) (s.get .edi) 0 [b, a]) := by
      rw [hb]
      exact Site.leads_divide_zero hplaced hzero
    obtain ⟨k, -, hcontained, hpc, hesp, hstacked⟩ := h.run ((Site.leadsBy_length 3).2 hrun)
    refine ⟨k, zero, _, _, hzero, hdouble, htake, hcontained, ?_⟩
    rw [if_pos hb]
    exact ⟨hpc, hesp.trans (UInt32.add_zero p), hstacked⟩
  · obtain ⟨c, hrun⟩ : ∃ c, (Site.aside s.memory e.labels e.address _ hk).LeadsBy _
        (Site.At e.address (s.get .esi) (s.get .edi) 0 [b, a])
        (Site.Left _ (s.get .esi) (s.get .edi) 0 [(a.toInt32 / b.toInt32).toUInt32] (some c)) :=
      Site.leadsBy_divide hplaced hzero (Nat.le_of_eq Site.capacity_aside.symm) hb
    obtain ⟨k, hpasses, hcontained, hpc, hesp, hstacked⟩ :=
      h.run (hrun.weaken fun _ hw => hw.toAt)
    obtain ⟨j, hj, hpaced⟩ := hpasses.paced
    refine ⟨k, zero, _, _, hzero, hdouble, htake, hcontained, ?_⟩
    rw [if_neg hb, ← toUInt32_div_eq_ofInt]
    refine ⟨hpc.trans ?_, hesp, hstacked, ?_, fun u hu hu' => hpaced.count_le hu hu'⟩
    · rw [behind_eq_add, hsize]
      rfl
    · rw [hpaced.count_eq]
      exact hj

/-- The least number is divided by `-1`. -/
theorem Embedding.quotient_of_enters_least :
    ∃ (e : Embedding (divide 0)) (s : Machine), e.Enters s ∧ s.get .esp = 1000 ∧
      s.memory.wordAt 1000 = -1 ∧ s.memory.wordAt 1004 = 0x80000000 ∧
      ∃ k, (Machine.step^[k] s).pc = 138 ∧ (Machine.step^[k] s).get .esp = 1004 ∧
        (Machine.step^[k] s).memory.wordAt 1004 = 0x80000000 := by
  have hlegible : ∀ l ∈ divide 0 ++ [.mark divideByZero, .op .halt], l.Legible :=
    List.forall_mem_append.2 ⟨legible_divide 0, by simp +decide [Statement.Legible]⟩
  obtain ⟨e, haddress, hlength⟩ := exists_embedding rfl hlegible
    (List.forall_mem_append.2 ⟨isCode_divide 0, by decide⟩) (by decide +kernel) (by decide +kernel)
  obtain ⟨s, hs, hesp, hb, ha⟩ :=
    e.exists_enters haddress hlength (Nat.le_of_ble_eq_true rfl) 0x80000000 (-1)
  obtain ⟨k, zero, double, take, -, -, -, -, h⟩ := Embedding.quotient_of_enters hs
  have hb' : s.memory.wordAt (1000 : UInt32).toNat = -1 := hb
  have ha' : s.memory.wordAt (1000 + 4 : UInt32).toNat = 0x80000000 := ha
  simp only [hesp, hb', ha'] at h
  rw [if_neg (by decide), haddress] at h
  exact ⟨e, s, hs, hesp, hb, ha, k, h.1, h.2.1, h.2.2.1⟩

end RpnY86.Code
