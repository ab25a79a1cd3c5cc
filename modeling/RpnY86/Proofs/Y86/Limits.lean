import RpnY86.Proofs.Y86.Consistent

/-! # Step limits

A limit only says where a run may be left. A run that is left at its limit can be taken up from
there, and ends like the run with both limits together (`run_some_add`). A run that stops within its
limit ends the same under every larger limit and under none (`run_eq_of_stopped`), also where the
last step allowed is the one that stops. -/

namespace RpnY86.Y86

/-- What a run reports if `m` more steps were made before it under the same limit: a limit that was
hit is larger by `m`. -/
def Outcome.prolonged (m : ℕ) : Outcome → Outcome
  | .stepLimit n pc => .stepLimit (m + n) pc
  | o => o

namespace Machine

variable {s : Machine} {m n : ℕ}

theorem limitOfInt_of_pos {k : Int} (h : 0 < k) : limitOfInt k = some k.toNat := if_pos h

theorem limitOfInt_of_nonpos {k : Int} (h : k ≤ 0) : limitOfInt k = none := if_neg (by omega)

theorem verdict_ne_stepLimit (s : Machine) (k : ℕ) (pc : UInt32) :
    s.verdict ≠ .stepLimit k pc := by
  intro h
  unfold verdict at h
  cases hf : s.fault with
  | none => rw [hf] at h; cases h
  | some f => rw [hf] at h; cases h

theorem prolonged_verdict (s : Machine) (m : ℕ) : s.verdict.prolonged m = s.verdict := by
  unfold verdict
  cases s.fault <;> rfl

theorem run_some_of_running (h : (step^[n] s).status = .running) :
    s.run (some n) = (step^[n] s, .stepLimit n (step^[n] s).pc) := by
  simp only [run, runFor_eq_iterate, if_pos h]

/-- **A stop holds under every limit** that lets the run come to it. -/
theorem run_eq_of_stopped (h : (step^[n] s).status ≠ .running) {limit : Option ℕ}
    (hlimit : ∀ k, limit = some k → n ≤ k) :
    s.run limit = (step^[n] s, (step^[n] s).verdict) := by
  cases limit with
  | none => simp only [run, runOut_eq_of_stopped h, if_neg h]
  | some k =>
    simp only [run, runFor_eq_iterate, iterate_step_of_le h (hlimit k rfl), if_neg h]

/-- **The limit is hit** exactly if the machine still runs after as many steps. -/
theorem run_some_stepLimit_iff :
    (∃ k pc, (s.run (some n)).2 = .stepLimit k pc) ↔ (step^[n] s).status = .running := by
  constructor
  · rintro ⟨k, pc, h⟩
    by_contra hstop
    rw [run_eq_of_stopped hstop fun j hj => (Option.some.inj hj).le] at h
    exact verdict_ne_stepLimit _ k pc h
  · intro h
    rw [run_some_of_running h]
    exact ⟨n, _, rfl⟩

/-- **Limits add up**, whatever the machine does in the steps that are left. -/
theorem run_some_add (s : Machine) (m n : ℕ) :
    s.run (some (m + n)) = ((step^[m] s).run (some n)).map id (Outcome.prolonged m) := by
  have hsplit : step^[m + n] s = step^[n] (step^[m] s) := by
    rw [Nat.add_comm, Function.iterate_add_apply]
  by_cases h : (step^[m + n] s).status = .running
  · rw [run_some_of_running h]
    rw [hsplit] at h
    rw [run_some_of_running h, hsplit]
    rfl
  · rw [run_eq_of_stopped h fun j hj => (Option.some.inj hj).le]
    rw [hsplit] at h
    rw [run_eq_of_stopped h fun j hj => (Option.some.inj hj).le, hsplit, Prod.map_apply,
      prolonged_verdict]
    rfl

/-- **A limit is where a run is left, and no more.** It is hit exactly if the machine still runs
after as many steps, all of which count; the run taken up from there with a second limit ends like
the run with both together. A limit that is not hit could as well be larger, or left out. -/
theorem run_limits (s : Machine) {m n : Int} (hm : 0 < m) (hn : 0 < n) :
    let t := (s.run (limitOfInt m)).1
    let hit := ∃ k pc, (s.run (limitOfInt m)).2 = .stepLimit k pc
    (hit ↔ (step^[m.toNat] s).status = .running) ∧
      (hit → t.steps = s.steps + m.toNat ∧
        s.run (limitOfInt (m + n)) =
          (t.run (limitOfInt n)).map id (Outcome.prolonged m.toNat)) ∧
      (¬ hit → ∀ k : Int, m ≤ k ∨ k ≤ 0 → s.run (limitOfInt k) = s.run (limitOfInt m)) := by
  intro t hit
  have hhit : hit ↔ (step^[m.toNat] s).status = .running := by
    rw [← run_some_stepLimit_iff, ← limitOfInt_of_pos hm]
  refine ⟨hhit, fun h => ?_, fun h k hk => ?_⟩
  · have hrunning := hhit.1 h
    have ht : t = step^[m.toNat] s := by
      show (s.run (limitOfInt m)).1 = _
      rw [limitOfInt_of_pos hm, run_some_of_running hrunning]
    rw [ht, limitOfInt_of_pos hn, limitOfInt_of_pos (by omega : 0 < m + n),
      Int.toNat_add hm.le hn.le]
    exact ⟨(iterate_step_of_running hrunning).1, run_some_add s _ _⟩
  · have hstopped := fun hrunning => h (hhit.2 hrunning)
    have within (j : Int) (hj : m ≤ j ∨ j ≤ 0) :
        s.run (limitOfInt j) = (step^[m.toNat] s, (step^[m.toNat] s).verdict) := by
      refine run_eq_of_stopped hstopped fun i hi => ?_
      rcases hj with hj | hj
      · rw [limitOfInt_of_pos (by omega)] at hi
        obtain rfl := Option.some.inj hi
        omega
      · rw [limitOfInt_of_nonpos hj] at hi
        cases hi
    rw [within k hk, within m (.inl le_rfl)]

/-- Two idle steps and a `halt`: the third step is the last that a limit of three allows, and it can
be made in a run of its own. -/
theorem run_limits_halt :
    let s : Machine := { fresh 16 with memory := ⟨16, #[0x10, 0x10, 0x00]⟩ }
    let left := s.run (limitOfInt 2)
    left.2 = .stepLimit 2 2 ∧ left.1.steps = 2 ∧
      left.1.run (limitOfInt 1) = s.run (limitOfInt 3) ∧
      s.run (limitOfInt 0) = s.run (limitOfInt 3) ∧
      (s.run (limitOfInt 3)).2 = .finished ∧ (s.run (limitOfInt 3)).1.steps = 3 := by
  intro s left
  have hleft : left.2 = .stepLimit 2 2 := by decide
  have hlast : (left.1.run (limitOfInt 1)).2 = .finished := by decide
  have hfinished : (s.run (limitOfInt 3)).2 = .finished := by decide
  obtain ⟨hsteps, hboth⟩ := (run_limits s (m := 2) (n := 1) (by decide) (by decide)).2.1
    ⟨2, 2, hleft⟩
  have hnone := (run_limits s (m := 3) (n := 1) (by decide) (by decide)).2.2
    (by rintro ⟨k, pc, h⟩; cases hfinished.symm.trans h) 0 (.inr le_rfl)
  refine ⟨hleft, hsteps, ?_, hnone, hfinished, by decide⟩
  rw [show (3 : Int) = 2 + 1 from rfl, hboth]
  refine Prod.ext rfl ?_
  rw [Prod.map_snd, hlast]
  rfl

end Machine

end RpnY86.Y86
