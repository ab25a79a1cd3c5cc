import RpnY86.Proofs.Code.Embedded
import RpnY86.Proofs.Code.Multiply
import RpnY86.Proofs.Code.Spelling
import RpnY86.Proofs.Y86.Exact

/-! # Multiplication in any program

The code of a multiplication can stand in any program that is assembled, and be entered by any
machine with two operands on its stack. It comes to its end with the product in place of the
operands, and goes through its loop exactly as often as the smaller magnitude says
(`Embedding.product_of_enters`). All else in memory stays as it was, and so do `%esi` and `%edi`. -/

namespace RpnY86.Code

open Y86 (Machine signed)

theorem mul_eq_ofInt (x y : UInt32) : x * y = UInt32.ofInt (signed x * signed y) := by
  apply Y86.signed_inj.1
  rw [Y86.signed_ofInt_eq]
  exact Int32.toInt_mul x.toInt32 y.toInt32

/-! ### Lines -/

theorem multiply_eq_blank (n : Int) : multiply n = .blank :: (multiply n).tail := rfl

theorem exists_multiply_eq (n : Int) :
    ∃ first l last, multiply n = first ++ l :: .mark (mulDone n) :: last := by
  refine ⟨Site.multiplyFront n ++ multiplyLoop n ++ (negate .eax .edx).take 2,
    .op (copy .edx .eax), [.op (.push .eax)], ?_⟩
  simp [Site.multiply_eq, negate, pushResult]

theorem isPlain_multiply (n : Int) : ∀ l ∈ multiply n, l.isPlain = true :=
  List.all_eq_true.1 rfl

theorem isCode_multiply (n : Int) : ∀ l ∈ multiply n, l.isCode = true :=
  List.all_eq_true.1 rfl

/-! ### The operation -/

/-- **Multiplication**, wherever its code stands, and for every two operands. -/
theorem Embedding.product_of_enters {n : Int} {e : Embedding (multiply n)} {s : Machine}
    (h : e.Enters s) :
    let p := s.get .esp
    let b := s.memory.wordAt p.toNat
    let a := s.memory.wordAt (p + 4).toNat
    ∃ k loop,
      e.labels.address? (localLabel "mul_loop" n) = some loop ∧
      Contained s k ∧
      let t := Machine.step^[k] s
      t.pc = e.address + 99 ∧ t.get .esp = p + 4 ∧
        t.memory.wordAt (p + 4).toNat = UInt32.ofInt (signed a * signed b) ∧
        Rounds [loop, loop + 2, loop + 8, loop + 10] (min (signed a).natAbs (signed b).natAbs)
          (path s k) := by
  intro p b a
  obtain ⟨m, rfl⟩ : ∃ m : Nat, n = m := by
    obtain ⟨first, l, last, heq⟩ := exists_multiply_eq n
    exact e.exists_natCast_of_mark heq (by decide)
  have hsize : size (multiply m) = 99 := size_multiply m
  have hk : size (multiply m) ≤ 2 ^ 31 := by omega
  have hplaced := e.placed (multiply_eq_blank m) (legible_multiply m) (isCode_multiply m)
    (isPlain_multiply m) hk h.holds
  have hroom : 4 * (([] : OperandStack).length + 1) ≤
      (Site.aside s.memory e.labels e.address _ hk).capacity := by
    rw [Site.capacity_aside]
    decide
  obtain ⟨c, hrun⟩ := Site.leadsBy_multiply hplaced hroom (s.get .esi) (s.get .edi) (x := a)
    (y := b) (d := 0)
  obtain ⟨k, hturns, hcontained, hpc, hesp, hstacked⟩ := h.run (hrun.weaken fun _ hw => hw.toAt)
  refine ⟨k, _, Site.mulLoop_label hplaced, hcontained, hpc.trans ?_, hesp, ?_, hturns.rounds⟩
  · rw [behind_eq_add, hsize]
    rfl
  · rw [← mul_eq_ofInt]
    exact hstacked

/-- The least number is added up three times. -/
theorem Embedding.product_of_enters_least :
    ∃ (e : Embedding (multiply 0)) (s : Machine), e.Enters s ∧ s.get .esp = 1000 ∧
      s.memory.wordAt 1000 = 0x80000000 ∧ s.memory.wordAt 1004 = -3 ∧
      ∃ k, (Machine.step^[k] s).pc = 99 ∧ (Machine.step^[k] s).get .esp = 1004 ∧
        (Machine.step^[k] s).memory.wordAt 1004 = 0x80000000 ∧
        ∃ loop, Rounds [loop, loop + 2, loop + 8, loop + 10] 3 (path s k) := by
  have hlegible : ∀ l ∈ multiply 0 ++ [], l.Legible := by
    rw [List.append_nil]
    exact legible_multiply 0
  obtain ⟨e, haddress, hlength⟩ := exists_embedding rfl hlegible
    (by rw [List.append_nil]; exact isCode_multiply 0) (by decide +kernel) (by decide +kernel)
  obtain ⟨s, hs, hesp, hb, ha⟩ :=
    e.exists_enters haddress hlength (Nat.le_of_ble_eq_true rfl) (-3) 0x80000000
  obtain ⟨k, loop, -, -, h⟩ := Embedding.product_of_enters hs
  have hb' : s.memory.wordAt (1000 : UInt32).toNat = 0x80000000 := hb
  have ha' : s.memory.wordAt (1000 + 4 : UInt32).toNat = -3 := ha
  simp only [hesp, hb', ha'] at h
  rw [haddress] at h
  exact ⟨e, s, hs, hesp, hb, ha, k, h.1, h.2.1, h.2.2.1, loop, h.2.2.2⟩

end RpnY86.Code
