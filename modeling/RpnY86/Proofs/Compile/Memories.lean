import RpnY86.Proofs.Compile.Safety
import RpnY86.Proofs.Y86.Consistent

/-! # The size of memory does not matter

A compiled program stays in the bytes of its image, so that it runs in a larger memory as it does in
one that the image just fills. There is one way in which it ends under a limit on its steps,
whatever memory it is loaded into (`Compiled.exists_run`): it halts, or the limit is reached. -/

namespace RpnY86

/-! ### Runs that meet no fault -/

namespace Y86.Machine

variable {s t : Machine}

/-- Machines that show the same, whatever is in their memories. -/
structure Alike (s t : Machine) : Prop where
  registers : t.registers = s.registers
  pc : t.pc = s.pc
  flags : t.flags = s.flags
  status : t.status = s.status
  steps : t.steps = s.steps

theorem Alike.trans {u : Machine} (h : Alike s t) (h' : Alike t u) : Alike s u :=
  ⟨h'.registers.trans h.registers, h'.pc.trans h.pc, h'.flags.trans h.flags,
    h'.status.trans h.status, h'.steps.trans h.steps⟩

theorem Alike.symm (h : Alike s t) : Alike t s :=
  ⟨h.registers.symm, h.pc.symm, h.flags.symm, h.status.symm, h.steps.symm⟩

theorem Alike.get (h : Alike s t) (r : Reg) : t.get r = s.get r := by
  rw [Machine.get, Machine.get, h.registers]

/-- A run that ended without a fault of the machine: it has halted, or it has used up its limit. -/
def EndsSoundly (limit : Option ℕ) (s : Machine) (o : Outcome) : Prop :=
  s.status = .halted ∧ o = .finished ∨
    ∃ n, limit = some n ∧ s.status = .running ∧ s.steps = n ∧ o = .stepLimit n s.pc

theorem EndsSoundly.congr {limit : Option ℕ} {o : Outcome} (h : EndsSoundly limit s o)
    (ha : Alike s t) : EndsSoundly limit t o := by
  unfold EndsSoundly
  rw [ha.status, ha.steps, ha.pc]
  exact h

theorem EndsSoundly.eq_of_alike {limit : Option ℕ} {o o' : Outcome} (h : EndsSoundly limit s o)
    (h' : EndsSoundly limit t o') (ha : Alike s t) : o' = o := by
  rcases h with ⟨hs, rfl⟩ | ⟨n, hn, hs, -, rfl⟩ <;> rcases h' with ⟨ht, rfl⟩ | ⟨m, hm, ht, -, rfl⟩
  · rfl
  · exact absurd (hs.symm.trans (ha.status.symm.trans ht)) (by decide)
  · exact absurd (hs.symm.trans (ha.status.symm.trans ht)) (by decide)
  · rw [ha.pc, Option.some.inj (hn.symm.trans hm)]

/-- **A machine that meets no fault and comes to a halt** ends soundly under every limit. -/
theorem endsSoundly_run (hc : s.Consistent) (hsteps : s.steps = 0)
    (hok : ∀ k, (step^[k] s).status = .running ∨ (step^[k] s).status = .halted)
    (hhalts : ∃ k, (step^[k] s).status = .halted) (limit : Option ℕ) :
    EndsSoundly limit (s.run limit).1 (s.run limit).2 := by
  obtain ⟨n, hn⟩ := exists_run_fst_eq_iterate s limit
  have hreport := run_snd s limit
  rcases hok n with hrunning | hhalted
  · rw [← hn] at hrunning
    rw [if_pos hrunning] at hreport
    cases limit with
    | none =>
      obtain ⟨k, hk⟩ := hhalts
      have hrunning := (run_none_eq_endless_iff s).1 hreport k
      rw [hk] at hrunning
      cases hrunning
    | some m =>
      refine .inr ⟨m, rfl, hrunning, ?_, hreport⟩
      have hm : (s.run (some m)).1 = step^[m] s := runFor_eq_iterate m s
      rw [hm] at hrunning ⊢
      rw [(iterate_step_of_running hrunning).1, hsteps, Nat.zero_add]
  · rw [← hn] at hhalted
    have hfault := hc.run limit
    unfold Consistent at hfault
    rw [hhalted] at hfault
    rw [if_neg (by rw [hhalted]; decide), verdict, hfault] at hreport
    exact .inl ⟨hhalted, hreport⟩

/-- **A run in a larger memory**, of a machine that does not use up the smaller one. -/
theorem alike_run (h : Extends s t) (hsteps : t.steps = s.steps)
    (hok : ∀ k, (step^[k] s).status ≠ .badAddress)
    (hhalts : ∃ k, (step^[k] s).status = .halted) (limit : Option ℕ) :
    Alike (s.run limit).1 (t.run limit).1 := by
  have alike (k : ℕ) : Alike (step^[k] s) (step^[k] t) := by
    obtain ⟨hk, hsum⟩ := h.iterate_step k (.inl fun j _ => hok j)
    exact ⟨hk.registers, hk.pc, hk.flags, hk.status, by omega⟩
  cases limit with
  | some n =>
    change Alike (s.runFor n) (t.runFor n)
    rw [runFor_eq_iterate, runFor_eq_iterate]
    exact alike n
  | none =>
    obtain ⟨k, hk⟩ := hhalts
    have hs : (step^[k] s).status ≠ .running := by rw [hk]; decide
    have ht : (step^[k] t).status ≠ .running := by rwa [(alike k).status]
    change Alike s.runOut t.runOut
    rw [runOut_eq_of_stopped hs, runOut_eq_of_stopped ht]
    exact alike k

end Y86.Machine

/-! ### Compiled programs -/

open Code (Layout StackRegion)
open Y86 (Machine Memory Outcome)
open Y86.Machine (Alike EndsSoundly Extends)

namespace Compiled

variable {r : StackRegion} {cs : List Char} {program : String} (C : Compiled r cs program)

section layout

variable {n : Nat} (hn : r.top.toInt.toNat ≤ n)

theorem running_or_halted (k : Nat) :
    (Machine.step^[k] (C.layout hn).boot).status = .running ∨
      (Machine.step^[k] (C.layout hn).boot).status = .halted := by
  obtain ⟨ss, -, hs⟩ := C.exists_steps
  exact (Layout.safe_iterate_step (L := C.layout hn) hs k).1.status

theorem exists_halted : ∃ k, (Machine.step^[k] (C.layout hn).boot).status = .halted := by
  obtain ⟨ss, -, hs⟩ := C.exists_steps
  obtain ⟨s, w, hrun, hrests, -⟩ :=
    Layout.run_of_leads (Layout.leads_value (L := C.layout hn) hs) fun _ h => h.halts
  obtain ⟨k, hk⟩ := Machine.exists_run_fst_eq_iterate (C.layout hn).boot none
  rw [hrun] at hk
  exact ⟨k, hk ▸ hrests.halted⟩

theorem endsSoundly_boot (limit : Option Nat) :
    EndsSoundly limit ((C.layout hn).boot.run limit).1 ((C.layout hn).boot.run limit).2 :=
  Machine.endsSoundly_run (Machine.consistent_of_running rfl rfl) rfl (C.running_or_halted hn)
    (C.exists_halted hn) limit

theorem extends_boot : Extends C.tight.boot (C.layout hn).boot where
  registers := rfl
  pc := rfl
  flags := rfl
  status := rfl
  memory := by
    have hzeros : (Memory.zeros r.top.toInt.toNat).Extends (Memory.zeros n) :=
      ⟨hn, fun k _ => by rw [Memory.byteAt_zeros, Memory.byteAt_zeros]⟩
    exact hzeros.overlay

theorem alike_boot (limit : Option Nat) :
    Alike (C.tight.boot.run limit).1 ((C.layout hn).boot.run limit).1 := by
  refine Machine.alike_run (C.extends_boot hn) rfl (fun k hk => ?_) (C.exists_halted _) limit
  rcases C.running_or_halted (Nat.le_refl _) k with h | h
  · exact absurd (h.symm.trans hk) (by decide)
  · exact absurd (h.symm.trans hk) (by decide)

end layout

/-- **A compiled program ends in one way**, in every memory that holds its image. -/
theorem exists_run (limit : Option Nat) :
    ∃ s o, EndsSoundly limit s o ∧ ∀ n, C.image.bytes.length ≤ n →
      ∃ loaded t, (Machine.fresh n).load C.image.bytes = .ok loaded ∧
        loaded.run limit = (t, o) ∧ Alike s t := by
  have htight := C.endsSoundly_boot (Nat.le_refl _) limit
  refine ⟨_, _, htight, fun n hn => ?_⟩
  rw [C.length_image] at hn
  have halike := C.alike_boot hn limit
  exact ⟨_, _, (C.layout hn).load_image,
    Prod.ext rfl (htight.eq_of_alike (C.endsSoundly_boot hn limit) halike), halike⟩

end Compiled

end RpnY86
