import Mathlib
import RpnY86.Y86.Run

/-! # Runs as repeated steps

A machine that has stopped stays as it is, so a run is the step function applied over and over
(`runFor_eq_iterate`), whatever the run does about stopping early. A run without a limit reaches the
stop of every machine that stops within the number of steps that even the smallest memory grants it
(`runOut_eq_iterate`). On the way to a `halt` every step counts, and no fault is met
(`iterate_step_of_halted`). -/

namespace RpnY86.Y86.Machine

theorem step_of_stopped {s : Machine} (h : s.status ≠ .running) : s.step = s := if_neg h

theorem iterate_step_of_stopped {s : Machine} (h : s.status ≠ .running) (n : ℕ) :
    step^[n] s = s :=
  Function.iterate_fixed (step_of_stopped h) n

theorem iterate_step_of_le {s : Machine} {n k : ℕ} (h : (step^[n] s).status ≠ .running)
    (hk : n ≤ k) : step^[k] s = step^[n] s := by
  obtain ⟨j, rfl⟩ := Nat.exists_eq_add_of_le hk
  rw [Nat.add_comm, Function.iterate_add_apply, iterate_step_of_stopped h]

/-- **A run with a limit** is that many steps. -/
theorem runFor_eq_iterate (n : ℕ) (s : Machine) : s.runFor n = step^[n] s := by
  induction n generalizing s with
  | zero => rfl
  | succ n ih =>
    rw [runFor]
    split
    · rw [ih, Function.iterate_succ_apply]
    · rename_i h
      rw [iterate_step_of_stopped h]

theorem runBlocks_eq_iterate (size n : ℕ) (s : Machine) :
    runBlocks size n s = step^[size * n] s := by
  induction n generalizing s with
  | zero => rfl
  | succ n ih =>
    rw [runBlocks]
    split
    · rw [ih, runFor_eq_iterate, ← Function.iterate_add_apply, Nat.mul_succ]
    · rename_i h
      rw [iterate_step_of_stopped h]

/-- The blocks of a run without a limit hold enough steps for every state of registers, program
counter and flags. -/
theorem le_blocks (s : Machine) : 2 ^ 291 ≤ 2 ^ blockBits * 2 ^ (s.stateBits - blockBits) := by
  have hs : 291 ≤ s.stateBits := by unfold stateBits; omega
  have hb : blockBits ≤ s.stateBits := Nat.le_trans (by decide) hs
  calc 2 ^ 291 ≤ 2 ^ s.stateBits := Nat.pow_le_pow_right (by omega) hs
    _ = 2 ^ blockBits * 2 ^ (s.stateBits - blockBits) := by
      rw [← Nat.pow_add, Nat.add_sub_cancel' hb]

/-- **A run without a limit** ends where the machine stops, if it stops soon enough. -/
theorem runOut_eq_iterate {s : Machine} {n : ℕ} (hn : n ≤ 2 ^ 291)
    (h : (step^[n] s).status ≠ .running) : s.runOut = step^[n] s := by
  unfold runOut
  simp only [runFor_eq_iterate, runBlocks_eq_iterate, Nat.one_shiftLeft]
  split
  · rw [← Function.iterate_add_apply]
    refine iterate_step_of_le h (Nat.le_trans hn ?_)
    exact Nat.le_trans (le_blocks _) (Nat.le_add_right _ _)
  · rename_i hr
    rcases Nat.le_total n (2 ^ blockBits) with hle | hle
    · exact iterate_step_of_le h hle
    · exact (iterate_step_of_le hr hle).symm

theorem run_none_of_halted {s : Machine} {n : ℕ} (hn : n ≤ 2 ^ 291)
    (h : (step^[n] s).status = .halted) :
    s.run none = (step^[n] s, (step^[n] s).verdict) := by
  have hr : (step^[n] s).status ≠ .running := by rw [h]; decide
  simp only [run, runOut_eq_iterate hn hr, if_neg hr]

/-! ### Counted steps -/

theorem steps_execute (s : Machine) (i : Instruction UInt32) : (s.execute i).steps = s.steps := by
  cases i with
  | halt | nop | constant | alu => rfl
  | move | jump =>
    simp only [execute]
    split <;> rfl
  | store | call | push =>
    simp only [execute, storeWord]
    split <;> rfl
  | load | ret | pop =>
    simp only [execute, loadWord]
    split <;> rfl

/-- An instruction that finds its data in memory meets no fault. -/
theorem fault_execute {s : Machine} {i : Instruction UInt32}
    (h : (s.execute i).status ≠ .badAddress) : (s.execute i).fault = s.fault := by
  cases i with
  | halt | nop | constant | alu => rfl
  | move | jump =>
    simp only [execute]
    split <;> rfl
  | store | call | push =>
    simp only [execute, storeWord] at h ⊢
    split at h
    · rename_i hword
      rw [if_pos hword]
      rfl
    · exact absurd rfl h
  | load | ret | pop =>
    simp only [execute, loadWord] at h ⊢
    split at h
    · rfl
    · exact absurd rfl h

/-- **A step that does not stop at a fault** counts, and leaves the fault of the machine alone. -/
theorem step_of_sound {s : Machine} (hs : s.status = .running)
    (h : s.step.status = .running ∨ s.step.status = .halted) :
    s.step.steps = s.steps + 1 ∧ s.step.fault = s.fault := by
  unfold step at h ⊢
  rw [if_pos hs] at h ⊢
  cases hb : s.memory.byte? s.pc with
  | none =>
    rw [hb] at h
    rcases h with h | h <;> exact nomatch h
  | some first =>
    rw [hb] at h
    dsimp only at h ⊢
    cases hf : s.memory.fetch s.pc first with
    | error o =>
      rw [hf] at h
      cases o with
      | address a => rcases h with h | h <;> exact nomatch h
      | instruction => rcases h with h | h <;> exact nomatch h
    | ok i =>
      rw [hf] at h
      dsimp only at h ⊢
      refine ⟨steps_execute _ i, fault_execute (i := i) ?_⟩
      rintro hbad
      rcases h with h | h <;> exact nomatch hbad.symm.trans h

theorem iterate_step_of_running {s : Machine} {n : ℕ} (h : (step^[n] s).status = .running) :
    (step^[n] s).steps = s.steps + n ∧ (step^[n] s).fault = s.fault := by
  induction n with
  | zero => exact ⟨rfl, rfl⟩
  | succ n ih =>
    have hbefore : (step^[n] s).status = .running := by
      by_contra hstopped
      rw [iterate_step_of_le hstopped (Nat.le_succ n)] at h
      exact hstopped h
    obtain ⟨hsteps, hfault⟩ := ih hbefore
    rw [Function.iterate_succ_apply'] at h ⊢
    obtain ⟨hsteps', hfault'⟩ := step_of_sound hbefore (.inl h)
    exact ⟨by rw [hsteps', hsteps, Nat.add_assoc], hfault'.trans hfault⟩

/-- **Up to a `halt`** every step counts, and no fault is met. -/
theorem iterate_step_of_halted {s : Machine} {n : ℕ} (h : (step^[n] s).status = .running)
    (h' : (step^[n + 1] s).status = .halted) :
    (step^[n + 1] s).steps = s.steps + (n + 1) ∧ (step^[n + 1] s).fault = s.fault := by
  obtain ⟨hsteps, hfault⟩ := iterate_step_of_running h
  rw [Function.iterate_succ_apply'] at h' ⊢
  obtain ⟨hsteps', hfault'⟩ := step_of_sound h (.inr h')
  exact ⟨by rw [hsteps', hsteps, Nat.add_assoc], hfault'.trans hfault⟩

end RpnY86.Y86.Machine
