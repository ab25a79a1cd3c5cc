import RpnY86.Proofs.Code.Running

/-! # Programs in other memories

Code that was loaded into one memory runs just as well in every memory that agrees with the first
one outside the zone (`Site.Agrees`): nothing else of the memory is ever read before it is written.
The site moves to the other memory (`Site.moved`), and each run moves with it, along the same trace
and through the same views (`Runs.moved`).

So all machines that are about to start a program halt after the same number of steps, before the
same `halt` (`Layout.exists_run_none`), with the same result (`Site.sameResult`). What a run leaves
in memory agrees again (`Agrees.of_keeps`). -/

namespace RpnY86.Code

open Y86 (Instruction Machine Memory Reg)

namespace Site

variable {S : Site} {m : Memory} {v w : View}

/-! ### Moving a site -/

/-- A memory in which the code of a site can run: it is no smaller than the first one, and agrees
with it outside the zone. -/
structure Agrees (S : Site) (m : Memory) : Prop where
  size : S.home.size ≤ m.size
  bytes : ∀ n < S.home.size, ¬ S.zone.Covers n → m.byteAt n = S.home.byteAt n

theorem Agrees.holds (h : S.Agrees m) {a : UInt32} {i : Instruction UInt32} (hi : S.code a i) :
    m.HoldsAt a i.encode := by
  have hholds := S.code_holds a i hi
  have hend := hholds.inMemory
  refine hholds.congr h.size fun k hk => h.bytes _ (by omega) ?_
  rw [Instruction.length_encode] at hk
  exact S.code_outside a i hi k hk

theorem Agrees.wordAt (h : S.Agrees m) {n : Nat} (hn : n + 4 ≤ S.home.size)
    (ho : ∀ k < 4, ¬ S.zone.Covers (n + k)) : m.wordAt n = S.home.wordAt n := by
  have hbyte : ∀ k < 4, m.byteAt (n + k) = S.home.byteAt (n + k) := by
    intro k hk
    exact h.bytes _ (by omega) (ho k hk)
  have h0 := hbyte 0 (by omega)
  rw [Nat.add_zero] at h0
  unfold Memory.wordAt
  rw [h0, hbyte 1 (by omega), hbyte 2 (by omega), hbyte 3 (by omega)]

/-- The site in another memory. -/
def moved (S : Site) (h : S.Agrees m) : Site where
  labels := S.labels
  home := m
  code := S.code
  zone := S.zone
  floor_le_top := S.floor_le_top
  top_le_size := Nat.le_trans S.top_le_size h.size
  top_le_range := S.top_le_range
  cell_le_size c hc := Nat.le_trans (S.cell_le_size c hc) h.size
  cell_outside := S.cell_outside
  code_holds _ _ hi := h.holds hi
  code_outside := S.code_outside

/-- An instruction does the same in the other memory: what it loads is an operand, the depth, or a
word on which the memories agree. -/
theorem Exec.moved {i : Instruction UInt32} (h : S.Agrees m) (he : S.Exec v i w) :
    (S.moved h).Exec v i w := by
  cases he with
  | move c src dst hs hd => exact .move c src dst hs hd
  | constant x dst hd => exact .constant x dst hd
  | alu op src dst hs hd => exact .alu op src dst hs hd
  | jump c dest => exact .jump c dest
  | push src hs hroom => exact .push src hs hroom
  | pop dst hd => exact .pop dst hd
  | loadTop dst hd => exact .loadTop dst hd
  | loadCell n base dst hb hd hcell => exact .loadCell n base dst hb hd hcell
  | loadHome n base dst hb hd hsize houtside =>
    rw [← h.wordAt hsize houtside]
    exact .loadHome n base dst hb hd (Nat.le_trans hsize h.size) houtside
  | storeCell src n base hs hb hcell => exact .storeCell src n base hs hb hcell

/-- **Runs move**, with their trace and their views. -/
theorem Runs.moved {trace : List UInt32} (h : S.Agrees m) (hr : S.Runs trace v w) :
    (S.moved h).Runs trace v w := by
  induction hr with
  | refl v => exact .refl v
  | step hi he _ ih => exact .step hi (he.moved h) ih

theorem Agrees.of_keeps (h : S.Agrees m) {m' : Memory} {d : UInt32} {st : OperandStack}
    (hk : (S.moved h).Keeps m' d st) : S.Agrees m' where
  size := by
    have hsize : m'.size = m.size := hk.size
    rw [hsize]
    exact h.size
  bytes n hn ho := (hk.frame n ho).trans (h.bytes n hn ho)

end Site

/-! ### The same result -/

/-- Two machines show the same result: their places are the same, and so are their registers
`%edi`, `%esi`, `%ebx` and `%esp`, and `%eax` if `%edi` says that there is a value. -/
structure SameResult (s t : Machine) : Prop where
  pc : s.pc = t.pc
  get : ∀ q ∈ [Reg.edi, .esi, .ebx, .esp], s.get q = t.get q
  eax : s.get .edi = 0 → s.get .eax = t.get .eax

theorem code_ne_zero (f : ProgramFault) : f.code ≠ 0 := by
  cases f <;> decide

namespace Site

variable {S S₁ S₂ : Site} {s t : Machine} {v w : View}

theorem Rests.get (h : S.Rests s v) {q : Reg} (hq : q ≠ .esp) : s.get q = v.registers.get q :=
  h.shows.get q hq

theorem Rests.esp (h : S.Rests s v) :
    s.get .esp = UInt32.ofNat (S.stackPointer v.stack.length) :=
  h.shows.esp

/-- Machines that rest before the same `halt` show the same result. -/
theorem sameResult {pc si b : UInt32} {st : OperandStack} {result : Except ProgramFault UInt32}
    (hzone : S₁.zone = S₂.zone) (hs : S₁.Rests s v) (ht : S₂.Rests t w)
    (hv : S.ConcludesAt pc si st (some b) result v)
    (hw : S.ConcludesAt pc si st (some b) result w) : SameResult s t := by
  have hesp : v.stack.length = w.stack.length → s.get .esp = t.get .esp := by
    intro hlength
    rw [hs.esp, ht.esp, hlength, stackPointer, stackPointer, hzone]
  have hpc : v.pc = w.pc → s.pc = t.pc := by
    intro h
    exact (hs.shows.pc.trans h).trans ht.shows.pc.symm
  have hget : ∀ q, q ≠ .esp → v.registers.get q = w.registers.get q → s.get q = t.get q := by
    intro q hq h
    rw [hs.get hq, ht.get hq, h]
  cases result with
  | ok x =>
    have hv : S.ValuedAt pc si x (some b) v := hv
    have hw : S.ValuedAt pc si x (some b) w := hw
    refine ⟨hpc (hv.pc.trans hw.pc.symm), ?_, fun _ => ?_⟩
    · simp only [List.forall_mem_cons]
      refine ⟨?_, ?_, ?_, ?_, List.forall_mem_nil _⟩
      · exact hget _ (by decide) (hv.edi.trans hw.edi.symm)
      · exact hget _ (by decide) (hv.esi.trans hw.esi.symm)
      · exact hget _ (by decide) ((hv.ebx b rfl).trans (hw.ebx b rfl).symm)
      · exact hesp (by rw [hv.stack, hw.stack])
    · exact hget _ (by decide) (hv.eax.trans hw.eax.symm)
  | error f =>
    have hv : S.FaultedAt pc f st v := hv
    have hw : S.FaultedAt pc f st w := hw
    refine ⟨hpc (hv.pc.trans hw.pc.symm), ?_, fun h => ?_⟩
    · simp only [List.forall_mem_cons]
      refine ⟨?_, ?_, ?_, ?_, List.forall_mem_nil _⟩
      · exact hget _ (by decide) (hv.edi.trans hw.edi.symm)
      · exact hget _ (by decide) (hv.esi.trans hw.esi.symm)
      · exact hget _ (by decide) (hv.ebx.trans hw.ebx.symm)
      · exact hesp (by rw [hv.stack, hw.stack])
    · -- the code of a fault is not zero, so there is no value to compare
      rw [hs.get (by decide), hv.edi] at h
      exact absurd h (code_ne_zero f)

end Site

/-! ### Starting a program -/

namespace Layout

variable {L : Layout} {s : Machine}

/-- A machine that is about to start the program, whatever it has in registers, flags and the
zone. -/
structure Ready (L : Layout) (s : Machine) : Prop where
  running : s.status = .running
  pc : s.pc = 0
  agrees : L.site.Agrees s.memory

theorem Ready.exists_shows (h : L.Ready s) :
    ∃ v, Started v ∧ (L.site.moved h.agrees).Shows s.step v := by
  have hk : (L.site.moved h.agrees).Keeps s.memory (s.memory.wordAt 20) [] :=
    { size := rfl
      frame := fun _ _ => rfl
      cell := by
        intro c hc
        obtain rfl := Option.some.inj hc
        rfl
      words := rfl }
  have hi : (L.site.moved h.agrees).code s.pc (.constant (UInt32.ofNat L.top) .esp) := by
    rw [h.pc]
    exact L.code_setup.1
  refine ⟨_, ⟨?_, rfl⟩, Site.shows_step h.running hi hk⟩
  rw [h.pc]
  rfl

/-- **All machines that start a program** halt after the same number of steps, and before the same
`halt`. -/
theorem exists_run_none {ss : List Step} (hs : Steps L.operations ss) :
    ∃ n pc st b, ∀ s (h : L.Ready s), ∃ s' w, s.run none = (s', s.verdict) ∧
      s'.steps = s.steps + n ∧ (L.site.moved h.agrees).Rests s' w ∧
      L.site.ConcludesAt pc 20 st (Site.lastKnown ss b) (Step.value L.capacity ss) w := by
  obtain ⟨pc, st, b, trace, hlen, hlead⟩ := exists_leads_value hs
  refine ⟨trace.length + 2, pc, st, b, fun s h => ?_⟩
  obtain ⟨v, hstarted, hshows⟩ := h.exists_shows
  obtain ⟨w, hr, hw⟩ := hlead v hstarted
  obtain ⟨s', hrun, hsteps, hrests⟩ :=
    (hr.moved h.agrees).run_none hshows hw.concludes.halts (le_run_none hlen)
  exact ⟨s', w, hrun, hsteps, hrests, hw⟩

end Layout

end RpnY86.Code
