import RpnY86.Proofs.Y86.Extension

/-! # Machines that never stop

How a machine goes on is decided by its registers, program counter, flags and bytes of memory, its
`core`. There are `2 ^ stateBits` cores, so a machine that still runs after that many steps has had
one of them twice (`exists_core_eq`). From then on it repeats itself, and it never stops
(`running_of_running`). Hence a run without a limit comes back exactly if the machine stops
(`run_none_eq_endless_iff`), however late that is. -/

namespace RpnY86.Y86.Machine

/-- The words of a machine: its registers and its program counter. -/
def words (s : Machine) : Fin 9 → UInt32 :=
  ![s.registers.eax, s.registers.ecx, s.registers.edx, s.registers.ebx, s.registers.esp,
    s.registers.ebp, s.registers.esi, s.registers.edi, s.pc]

/-- What decides how a machine with `n` bytes of memory goes on. -/
abbrev Core (n : ℕ) : Type :=
  (Fin 9 → Fin UInt32.size) × (Fin 3 → Bool) × (Fin n → Fin UInt8.size)

/-- The core of a machine, with `n` bytes of memory. -/
def core (n : ℕ) (s : Machine) : Core n :=
  (fun i => (s.words i).toFin, ![s.flags.zero, s.flags.sign, s.flags.overflow],
    fun i => (s.memory.byteAt i).toFin)

theorem card_core (n : ℕ) : Fintype.card (Core n) = 2 ^ (8 * 32 + 32 + 3 + 8 * n) := by
  have h₁ : UInt32.size ^ 9 = 2 ^ (32 * 9) := by rw [Nat.pow_mul]
  have h₂ : UInt8.size ^ n = 2 ^ (8 * n) := by rw [Nat.pow_mul]
  rw [Fintype.card_prod, Fintype.card_prod, Fintype.card_fun, Fintype.card_fun, Fintype.card_fun,
    Fintype.card_fin, Fintype.card_fin, Fintype.card_fin, Fintype.card_fin, Fintype.card_fin,
    Fintype.card_bool, h₁, h₂, ← Nat.pow_add, ← Nat.pow_add]
  congr 1
  omega

theorem extends_of_core_eq {s t : Machine} (h : core s.memory.size s = core s.memory.size t)
    (hsize : s.memory.size = t.memory.size) (hstatus : t.status = s.status) : Extends s t := by
  obtain ⟨hwords, hflags, hbytes⟩ : (_ ∧ _ ∧ _) := by
    simpa only [core, Prod.mk.injEq] using h
  have word (i : Fin 9) : t.words i = s.words i := (UInt32.toFin_inj.mp (congrFun hwords i)).symm
  have flag (i : Fin 3) := (congrFun hflags i).symm
  refine { registers := ?_, pc := word 8, flags := ?_, status := hstatus, memory := ?_ }
  · have eta (f : Registers) : f = ⟨f.eax, f.ecx, f.edx, f.ebx, f.esp, f.ebp, f.esi, f.edi⟩ := rfl
    rw [eta t.registers, eta s.registers]
    congr 1
    exacts [word 0, word 1, word 2, word 3, word 4, word 5, word 6, word 7]
  · have eta (f : Flags) : f = ⟨f.zero, f.sign, f.overflow⟩ := rfl
    rw [eta t.flags, eta s.flags]
    congr 1
    exacts [flag 0, flag 1, flag 2]
  · exact ⟨hsize.le, fun k hk => (UInt8.toFin_inj.mp (congrFun hbytes ⟨k, hk⟩)).symm⟩

/-- **Among so many states** there are two with the same core. -/
theorem exists_core_eq (s : Machine) :
    ∃ i j, i < j ∧ j ≤ 2 ^ s.stateBits ∧
      core s.memory.size (step^[i] s) = core s.memory.size (step^[j] s) := by
  obtain ⟨i, j, hne, heq⟩ := Fintype.exists_ne_map_eq_of_card_lt
    (fun k : Fin (2 ^ s.stateBits + 1) => core s.memory.size (step^[k.val] s))
    (by rw [card_core, Fintype.card_fin]; exact Nat.lt_succ_self _)
  have hij : i.val ≠ j.val := fun h => hne (Fin.ext h)
  rcases Nat.lt_or_gt_of_ne hij with hlt | hlt
  · exact ⟨i, j, hlt, by omega, heq⟩
  · exact ⟨j, i, hlt, by omega, heq.symm⟩

/-- **A machine that runs through so many states** never stops. -/
theorem running_of_running {s : Machine} (h : (step^[2 ^ s.stateBits] s).status = .running)
    (k : ℕ) : (step^[k] s).status = .running := by
  obtain ⟨i, j, hij, hj, hcore⟩ := exists_core_eq s
  have early {k : ℕ} (hk : k ≤ 2 ^ s.stateBits) : (step^[k] s).status = .running := by
    by_contra hstop
    exact hstop (by rw [← iterate_step_of_le hstop hk, h])
  have hsize (k : ℕ) := memory_size_iterate_step s k
  have same : Extends (step^[i] s) (step^[j] s) :=
    extends_of_core_eq (by rwa [hsize]) (by rw [hsize, hsize])
      (by rw [early hj, early (by omega)])
  -- The first stop would be repeated `j - i` steps earlier.
  induction k using Nat.strong_induction_on with
  | _ k ih =>
    rcases Nat.lt_or_ge k j with hlt | hge
    · exact early (by omega)
    · obtain ⟨d, rfl⟩ := Nat.exists_eq_add_of_le hge
      have before := ih (i + d) (by omega)
      have again := (same.iterate_step d (.inr (by rw [hsize, hsize]))).1.status
      rw [← Function.iterate_add_apply, ← Function.iterate_add_apply, Nat.add_comm d j,
        Nat.add_comm d i] at again
      rw [again, before]

/-- The steps of a run without a limit: enough of them to come to a stop, if there is one. -/
theorem exists_runOut_eq_iterate (s : Machine) :
    ∃ n, s.runOut = step^[n] s ∧ (s.runOut.status = .running → 2 ^ s.stateBits ≤ n) := by
  unfold runOut
  simp only [runFor_eq_iterate, runBlocks_eq_iterate, Nat.one_shiftLeft]
  split_ifs with h
  · refine ⟨_, (Function.iterate_add_apply ..).symm, fun _ => ?_⟩
    have hbits : (step^[2 ^ blockBits] s).stateBits = s.stateBits := by
      unfold stateBits
      rw [memory_size_iterate_step]
    have hle : blockBits ≤ s.stateBits := by unfold blockBits stateBits; omega
    rw [hbits, ← Nat.pow_add, Nat.add_sub_cancel' hle]
    exact Nat.le_add_right _ _
  · exact ⟨_, rfl, fun hr => absurd hr h⟩

theorem runOut_running_iff (s : Machine) :
    s.runOut.status = .running ↔ ∀ k, (step^[k] s).status = .running := by
  obtain ⟨n, hn, henough⟩ := exists_runOut_eq_iterate s
  constructor
  · intro h
    refine running_of_running ?_
    by_contra hstop
    have hle := henough h
    rw [hn, iterate_step_of_le hstop hle] at h
    exact hstop h
  · intro h
    rw [hn]
    exact h n

/-- A run without a limit ends where the machine stops. -/
theorem runOut_eq_of_stopped {s : Machine} {k : ℕ} (h : (step^[k] s).status ≠ .running) :
    s.runOut = step^[k] s := by
  have hstop : s.runOut.status ≠ .running := fun hr => h ((runOut_running_iff s).1 hr k)
  obtain ⟨n, hn, -⟩ := exists_runOut_eq_iterate s
  rw [hn] at hstop ⊢
  rcases Nat.le_total n k with hle | hle
  · exact (iterate_step_of_le hstop hle).symm
  · exact iterate_step_of_le h hle

/-- **A run without a limit comes back** exactly if the machine stops. -/
theorem run_none_eq_endless_iff (s : Machine) :
    (s.run none).2 = .endless ↔ ∀ k, (step^[k] s).status = .running := by
  rw [← runOut_running_iff]
  unfold run verdict
  dsimp only
  split_ifs with h
  · exact ⟨fun _ => h, fun _ => rfl⟩
  · refine ⟨fun ho => ?_, fun hr => absurd hr h⟩
    cases hf : s.runOut.fault with
    | none => rw [hf] at ho; cases ho
    | some f => rw [hf] at ho; cases ho

end RpnY86.Y86.Machine
