import RpnY86.Proofs.Y86.Endless
import RpnY86.Y86.Session

/-! # What the status of a machine says

A machine stops at an obstacle together with a fault that names it, and never otherwise keeps one.
`Consistent` says so for each status. One step keeps it (`Consistent.step`): either the machine
stops at an obstacle, and an address among its obstacles lies beyond the memory, or its fault stays
away and it runs on or halts. From there the invariant goes to runs, to single calls
(`Consistent.perform`) and to all sequences of calls (`Consistent.after`).

What a run reports is read off the machine it leaves (`run_snd`), so the invariant decides it. -/

namespace RpnY86.Y86.Machine

/-- The fault of a machine is the one its status speaks of. -/
def Consistent (s : Machine) : Prop :=
  match s.status with
  | .running | .halted => s.fault = none
  | .badAddress => ∃ a, s.fault = some ⟨s.pc, .address a⟩ ∧ s.memory.size < a.toNat + 4
  | .badInstruction => s.fault = some ⟨s.pc, .instruction⟩
  | .other _ => False

variable {s t : Machine}

theorem consistent_fresh (n : ℕ) : (fresh n).Consistent := rfl

theorem consistent_of_running (h : s.status = .running) (hf : s.fault = none) : s.Consistent := by
  unfold Consistent
  rw [h]
  exact hf

theorem Consistent.fault_of_running (h : s.Consistent) (hs : s.status = .running) :
    s.fault = none := by
  unfold Consistent at h
  rwa [hs] at h

/-- Registers, flags and the bytes of memory do not matter. -/
theorem Consistent.congr (h : s.Consistent) (hstatus : t.status = s.status)
    (hfault : t.fault = s.fault) (hpc : t.pc = s.pc) (hsize : t.memory.size = s.memory.size) :
    t.Consistent := by
  unfold Consistent at h ⊢
  rwa [hstatus, hfault, hpc, hsize]

/-- A machine stops consistently at an obstacle that is there. -/
theorem consistent_stop {o : Obstacle} (ho : ∀ a, o = .address a → s.memory.size < a.toNat + 4) :
    (s.stop o).Consistent := by
  cases o with
  | address a => exact ⟨a, rfl, ho a rfl⟩
  | instruction => exact rfl

/-! ### Steps -/

theorem consistent_storeWord {a v : UInt32} {next : Machine → Machine}
    (h : (next { s with memory := s.memory.setWord a v }).Consistent) :
    (s.storeWord a v next).Consistent := by
  unfold storeWord
  split_ifs with hword
  · exact h
  · rw [Memory.hasWord_iff] at hword
    refine consistent_stop fun b hb => ?_
    cases hb
    omega

theorem consistent_loadWord {a : UInt32} {next : Machine → UInt32 → Machine}
    (h : ∀ v, (next s v).Consistent) : (s.loadWord a next).Consistent := by
  unfold loadWord
  cases hword : s.memory.word? a with
  | some v => exact h v
  | none =>
    have ha : ¬ s.memory.hasWord a = true := by rw [← Memory.isSome_word?, hword]; decide
    rw [Memory.hasWord_iff] at ha
    refine consistent_stop fun b hb => ?_
    cases hb
    omega

theorem consistent_execute (hs : s.status = .running) (hf : s.fault = none)
    (i : Instruction UInt32) : (s.execute i).Consistent := by
  have go {t : Machine} (hstatus : t.status = s.status) (hfault : t.fault = s.fault) :
      t.Consistent := consistent_of_running (hstatus.trans hs) (hfault.trans hf)
  cases i with
  | halt => exact hf
  | nop | constant | alu => exact go rfl rfl
  | move | jump =>
    unfold execute
    dsimp only
    split_ifs <;> exact go rfl rfl
  | store | call | push => exact consistent_storeWord (go rfl rfl)
  | load | ret | pop => exact consistent_loadWord fun v => go rfl rfl

/-- **One step** leaves a consistent machine consistent. -/
theorem Consistent.step (h : s.Consistent) : s.step.Consistent := by
  by_cases hs : s.status = .running
  · have hf := h.fault_of_running hs
    unfold Machine.step
    rw [if_pos hs]
    cases hb : s.memory.byte? s.pc with
    | none =>
      refine consistent_stop fun a ha => ?_
      cases ha
      by_contra hlt
      rw [Memory.byte?, if_pos (by omega)] at hb
      cases hb
    | some first =>
      dsimp only
      cases hfetch : s.memory.fetch s.pc first with
      | error o =>
        refine consistent_stop fun a ha => ?_
        exact Memory.lt_of_fetch_error (by rw [hfetch, ha])
      | ok i => exact consistent_execute (s := { s with steps := s.steps + 1 }) hs hf i
  · rwa [step_of_stopped hs]

theorem Consistent.iterate_step (h : s.Consistent) (n : ℕ) : (Machine.step^[n] s).Consistent := by
  induction n with
  | zero => exact h
  | succ n ih => rw [Function.iterate_succ_apply']; exact ih.step

/-! ### Runs -/

theorem exists_run_fst_eq_iterate (s : Machine) (limit : Option ℕ) :
    ∃ n, (s.run limit).1 = Machine.step^[n] s := by
  cases limit with
  | some n => exact ⟨n, runFor_eq_iterate n s⟩
  | none =>
    obtain ⟨n, hn, -⟩ := exists_runOut_eq_iterate s
    exact ⟨n, hn⟩

/-- What a run reports, read off the machine it leaves. -/
theorem run_snd (s : Machine) (limit : Option ℕ) :
    (s.run limit).2 = if (s.run limit).1.status = .running then
        (match limit with
          | some n => .stepLimit n (s.run limit).1.pc
          | none => .endless)
      else (s.run limit).1.verdict := by
  cases limit <;> rfl

theorem Consistent.run (h : s.Consistent) (limit : Option ℕ) : (s.run limit).1.Consistent := by
  obtain ⟨n, hn⟩ := exists_run_fst_eq_iterate s limit
  rw [hn]
  exact h.iterate_step n

theorem run_snd_eq_endless_iff (s : Machine) (limit : Int) :
    (s.run (limitOfInt limit)).2 = .endless ↔
      limit ≤ 0 ∧ ∀ k, (Machine.step^[k] s).status = .running := by
  by_cases hpos : 0 < limit
  · rw [limitOfInt, if_pos hpos, run_snd]
    refine ⟨fun ho => ?_, fun h => by omega⟩
    unfold verdict at ho
    split_ifs at ho
    · cases hf : (s.run (some limit.toNat)).1.fault with
      | none => rw [hf] at ho; cases ho
      | some f => rw [hf] at ho; cases ho
  · rw [limitOfInt, if_neg hpos, run_none_eq_endless_iff]
    exact ⟨fun h => ⟨by omega, h⟩, fun h => h.2⟩

/-! ### Calls -/

/-- **One call** leaves a consistent machine consistent, with as much memory as before. -/
theorem Consistent.perform (h : s.Consistent) (c : Call) :
    (s.perform c).1.Consistent ∧ (s.perform c).1.memory.size = s.memory.size := by
  cases c with
  | load image =>
    simp only [Machine.perform, Machine.load]
    split_ifs
    · exact ⟨h, rfl⟩
    · exact ⟨h.congr rfl rfl rfl rfl, rfl⟩
  | step => exact ⟨h.step, memory_size_step s⟩
  | run limit =>
    refine ⟨h.run _, ?_⟩
    obtain ⟨n, hn⟩ := exists_run_fst_eq_iterate s (limitOfInt limit)
    exact (congrArg (·.memory.size) hn).trans (memory_size_iterate_step s n)
  | readWord addr => exact ⟨h, rfl⟩
  | writeWord addr v =>
    unfold Machine.perform
    dsimp only
    split_ifs
    · exact ⟨h.congr rfl rfl rfl (Memory.size_setWord ..), Memory.size_setWord ..⟩
    · exact ⟨h, rfl⟩
  | setRegister r v => exact ⟨h.congr rfl rfl rfl rfl, rfl⟩
  | setFlags f => exact ⟨h.congr rfl rfl rfl rfl, rfl⟩

/-- **All calls** do. -/
theorem Consistent.after (h : s.Consistent) (calls : List Call) :
    (s.after calls).Consistent ∧ (s.after calls).memory.size = s.memory.size := by
  induction calls generalizing s with
  | nil => exact ⟨h, rfl⟩
  | cons c calls ih =>
    obtain ⟨hc, hsize⟩ := h.perform c
    obtain ⟨hcs, hsizes⟩ := ih hc
    exact ⟨hcs, hsizes.trans hsize⟩

/-! ### What can be seen -/

/-- What the invariant says about status and fault. -/
theorem Consistent.status_fault (h : s.Consistent) :
    (s.status = .running ∨ s.status = .halted ∨ s.status = .badAddress ∨
        s.status = .badInstruction) ∧
      (s.fault.isSome ↔ s.status = .badAddress ∨ s.status = .badInstruction) ∧
      ∀ f, s.fault = some f → f.status = s.status ∧ f.pc = s.pc ∧
        ∀ a, f.obstacle = .address a → s.memory.size < a.toNat + 4 := by
  unfold Consistent at h
  cases hs : s.status with
  | running | halted =>
    rw [hs] at h
    dsimp only at h
    rw [h]
    refine ⟨by simp, by simp, fun f hf => ?_⟩
    cases hf
  | badAddress =>
    rw [hs] at h
    obtain ⟨a, hf, ha⟩ := h
    rw [hf]
    refine ⟨by simp, by simp, fun f hf => ?_⟩
    cases hf
    refine ⟨rfl, rfl, fun b hb => ?_⟩
    cases hb
    exact ha
  | badInstruction =>
    rw [hs] at h
    dsimp only at h
    rw [h]
    refine ⟨by simp, by simp, fun f hf => ?_⟩
    cases hf
    exact ⟨rfl, rfl, fun b hb => nomatch hb⟩
  | other code =>
    rw [hs] at h
    exact h.elim

theorem Consistent.run_snd_iff (h : s.Consistent) {limit : Option ℕ}
    (hback : (s.run limit).2 ≠ .endless) :
    ((s.run limit).2 = .finished ↔ (s.run limit).1.status = .halted) ∧
      ((∃ f, (s.run limit).2 = .faulted f ∧ (s.run limit).1.fault = some f) ↔
        (s.run limit).1.status = .badAddress ∨ (s.run limit).1.status = .badInstruction) ∧
      ((∃ k pc, (s.run limit).2 = .stepLimit k pc) ↔ (s.run limit).1.status = .running) := by
  have hleft := h.run limit
  have hreport := run_snd s limit
  generalize s.run limit = left at hback hleft hreport ⊢
  obtain ⟨t, o⟩ := left
  dsimp only at hback hleft hreport ⊢
  unfold Consistent at hleft
  unfold verdict at hreport
  cases ht : t.status with
  | running =>
    cases limit with
    | none =>
      rw [if_pos ht] at hreport
      exact absurd hreport hback
    | some n =>
      rw [if_pos ht] at hreport
      subst hreport
      simp
  | halted =>
    rw [ht] at hleft
    dsimp only at hleft
    rw [if_neg (by rw [ht]; decide), hleft] at hreport
    subst hreport
    simp
  | badAddress =>
    rw [ht] at hleft
    obtain ⟨a, hf, -⟩ := hleft
    rw [if_neg (by rw [ht]; decide), hf] at hreport
    subst hreport
    simp [hf]
  | badInstruction =>
    rw [ht] at hleft
    dsimp only at hleft
    rw [if_neg (by rw [ht]; decide), hleft] at hreport
    subst hreport
    simp [hleft]
  | other code =>
    rw [ht] at hleft
    exact hleft.elim

/-- **Status, fault and report always fit together**, whatever is done to a machine from outside:
the memory keeps its size, a fault is there exactly where the status says so, with the address that
lies beyond the memory, and every run that comes back reports the status it leaves. A run does not
come back only if it has no limit and the machine never stops. -/
theorem status_tells_fault (n : Int) (calls : List Call) :
    let s := (fresh (Memory.sizeFor n)).after calls
    s.memory.size = Memory.sizeFor n ∧
      (s.status = .running ∨ s.status = .halted ∨ s.status = .badAddress ∨
        s.status = .badInstruction) ∧
      (s.fault.isSome ↔ s.status = .badAddress ∨ s.status = .badInstruction) ∧
      (∀ f, s.fault = some f → f.status = s.status ∧ f.pc = s.pc ∧
        ∀ a, f.obstacle = .address a → s.memory.size < a.toNat + 4) ∧
      ∀ limit : Int,
        let t := (s.run (limitOfInt limit)).1
        let o := (s.run (limitOfInt limit)).2
        (o = .endless ↔ limit ≤ 0 ∧ ∀ k, (Machine.step^[k] s).status = .running) ∧
          (o = .endless ∨
            (o = .finished ↔ t.status = .halted) ∧
            ((∃ f, o = .faulted f ∧ t.fault = some f) ↔
              t.status = .badAddress ∨ t.status = .badInstruction) ∧
            ((∃ k pc, o = .stepLimit k pc) ↔ t.status = .running)) := by
  intro s
  obtain ⟨hs, hsize⟩ := (consistent_fresh (Memory.sizeFor n)).after calls
  obtain ⟨hstatus, hfault, hwhat⟩ := hs.status_fault
  refine ⟨hsize, hstatus, hfault, hwhat, fun limit => ?_⟩
  intro t o
  refine ⟨run_snd_eq_endless_iff s limit, ?_⟩
  by_cases hback : o = .endless
  · exact .inl hback
  · exact .inr (hs.run_snd_iff hback)

end RpnY86.Y86.Machine
