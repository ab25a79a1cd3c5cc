import RpnY86.Proofs.Code.Loaded

/-! # Running a loaded program

The first instruction sets the stack pointer; from then on the machine shows a view at the site of
its program (`Site.shows_step`). Whatever the operations are, the view runs to a `halt`, and what it
started with does not matter (`Layout.exists_leads_value`). Until then it is always about to execute
an instruction of the program (`Site.Runs.shows_or_rests`). -/

namespace RpnY86.Code

open Y86 (AluOp Instruction Machine Memory Reg Registers)

/-! ### Runs that come to a halt -/

namespace Site

variable {S : Site} {s : Machine} {v w : View} {trace : List UInt32}

/-- A machine that has halted, and apart from that looks like a view. -/
structure Rests (S : Site) (s : Machine) (v : View) : Prop where
  halted : s.status = .halted
  shows : S.Shows { s with status := .running } v

theorem Shows.halt (h : S.Shows s v) (hi : S.code v.pc .halt) : S.Rests s.step v := by
  rw [Machine.step_eq_execute h.running (h.holds hi)]
  refine ⟨rfl, ?_⟩
  have hshows := h.counted (s.steps + 1)
  rw [← h.running]
  exact hshows

theorem Runs.rests (hr : S.Runs trace v w) (h : S.Shows s v) (hw : S.code w.pc .halt) :
    S.Rests (Machine.step^[trace.length + 1] s) w := by
  rw [Function.iterate_succ_apply']
  exact (hr.shows h).halt hw

/-- **A run without a limit** of a machine that shows a view behind its first step. -/
theorem Runs.run_none (hr : S.Runs trace v w) (h : S.Shows s.step v)
    (hw : S.code w.pc .halt) (hlen : trace.length + 2 ≤ 2 ^ 291) :
    ∃ s', s.run none = (s', s.verdict) ∧ s'.steps = s.steps + (trace.length + 2) ∧
      S.Rests s' w := by
  have hrunning := (hr.shows h).running
  have hrests := hr.rests h hw
  rw [← Function.iterate_succ_apply] at hrunning hrests
  obtain ⟨hsteps, hfault⟩ := Machine.iterate_step_of_halted hrunning hrests.halted
  refine ⟨_, ?_, hsteps, hrests⟩
  rw [Machine.run_none_of_halted hlen hrests.halted, Machine.verdict, Machine.verdict, hfault]

/-- **All states of a run**: the machine is about to execute an instruction that its view allows,
or it is at rest. -/
theorem Runs.shows_or_rests (hr : S.Runs trace v w) (h : S.Shows s v) (hw : S.code w.pc .halt)
    (n : Nat) :
    (∃ u i, S.Shows (Machine.step^[n] s) u ∧ S.code u.pc i ∧ (i = .halt ∨ ∃ x, S.Exec u i x)) ∨
      S.Rests (Machine.step^[n] s) w := by
  rcases Nat.lt_trichotomy n trace.length with hn | rfl | hn
  · obtain ⟨u, x, i, hu, hi, he⟩ := hr.shows_at h hn
    exact .inl ⟨u, i, hu, hi, .inr ⟨x, he⟩⟩
  · exact .inl ⟨w, .halt, hr.shows h, hw, .inl rfl⟩
  · have hrests := hr.rests h hw
    have hstopped : (Machine.step^[trace.length + 1] s).status ≠ .running := by
      rw [hrests.halted]
      decide
    rw [Machine.iterate_step_of_le hstopped hn]
    exact .inr hrests

/-- A view before the `halt` of a computation with a given result. -/
def Concludes (S : Site) : Except ProgramFault UInt32 → View → Prop
  | .ok v => S.Valued v
  | .error f => fun w => ∃ st, S.Faulted f st w

/-- The place of that view, and what is known of its operands and of `%ebx`. -/
def ConcludesAt (S : Site) (pc si : UInt32) (st : OperandStack) (b : Option UInt32) :
    Except ProgramFault UInt32 → View → Prop
  | .ok v => S.ValuedAt pc si v b
  | .error f => S.FaultedAt pc f st

theorem ConcludesAt.concludes {pc si : UInt32} {st : OperandStack} {b : Option UInt32}
    {result : Except ProgramFault UInt32} (h : S.ConcludesAt pc si st b result w) :
    S.Concludes result w := by
  cases result with
  | ok v => exact ValuedAt.toValued h
  | error f => exact ⟨st, FaultedAt.toFaulted h⟩

theorem Concludes.halts {result : Except ProgramFault UInt32} (h : S.Concludes result w) :
    S.code w.pc .halt := by
  cases result with
  | ok v => exact Valued.halts h
  | error f =>
    obtain ⟨st, hf⟩ := h
    exact hf.halts

/-- **The first instruction** sets the stack pointer. Whatever else a machine holds, it then shows
a view without operands. -/
theorem shows_step {d : UInt32} (hs : s.status = .running)
    (hi : S.code s.pc (.constant (UInt32.ofNat S.zone.top) .esp)) (hk : S.Keeps s.memory d []) :
    S.Shows s.step ⟨s.pc + 6, s.registers, s.flags, d, []⟩ := by
  rw [Machine.step_eq_execute hs (hk.holds hi)]
  exact
    { running := hs
      pc := rfl
      flags := rfl
      get := by
        intro q hq
        simp only [Machine.execute, Machine.advance, Machine.set, Machine.get, Registers.get_set,
          if_neg hq]
      esp := by
        simp only [Machine.execute, Machine.advance, Machine.set, Machine.get, Registers.get_set,
          if_true]
        rfl
      room := Nat.zero_le _
      keeps := hk }

end Site

/-! ### The first instructions -/

/-- The view behind the first instruction. -/
def booted : View where
  pc := 6
  registers := {}
  flags := { zero := true, sign := false, overflow := false }
  depth := 0
  stack := []

/-- A view behind the first instruction, with anything in registers, flags and depth. -/
structure Started (v : View) : Prop where
  pc : v.pc = 6
  stack : v.stack = []

theorem started_booted : Started booted := ⟨rfl, rfl⟩

namespace Layout

variable (L : Layout)

/-- The machine with the program in its memory. -/
def boot : Machine := { Machine.fresh L.memorySize with memory := L.home }

theorem load_image : (Machine.fresh L.memorySize).load L.image.bytes = .ok L.boot := by
  have h : L.image.bytes.length ≤ L.memorySize := by
    rw [length_image]
    exact L.top_le
  exact if_neg (Nat.not_lt.2 h)

theorem code_setup :
    L.site.code 0 (.constant L.top.toUInt32 .esp) ∧ L.site.code 6 (.constant L.top.toUInt32 .ebp) ∧
      L.site.code 12 (.jump .always 40) := by
  have hstack : L.site.labels.address? "Stack" = some L.top.toUInt32 := rfl
  have hmain : L.site.labels.address? "Main" = some 40 :=
    address?_table L.fragments_eq _ _ (by decide)
  obtain ⟨-, ⟨i, hi, h1⟩, -, ⟨j, hj, h2⟩, -, ⟨k, hk, h3⟩, -⟩ := L.placed_setup
  simp only [goto, resolve?, Ref.resolve?, hstack, hmain, Option.map_some] at hi hj hk
  obtain rfl := Option.some.inj hi
  obtain rfl := Option.some.inj hj
  obtain rfl := Option.some.inj hk
  exact ⟨h1, h2, h3⟩

theorem keeps_home : L.site.Keeps L.home 0 [] where
  size := rfl
  frame _ _ := rfl
  cell c hc := by
    obtain rfl := Option.some.inj hc
    exact L.wordAt_home (l := some 12) (List.mem_cons_self ..)
  words := rfl

theorem shows_boot : L.site.Shows L.boot.step booted :=
  Site.shows_step (s := L.boot) rfl L.code_setup.1 L.keeps_home

/-- Setup and entry lead to the first fragment, with no operands. They overwrite whatever they find
in registers, flags and the cell of the depth. -/
theorem leads_started : L.site.Leads 6 Started (Site.Between 56 20 []) := by
  obtain ⟨-, h1, h2⟩ := L.code_setup
  have hdepth : L.site.labels.address? "depth" = some 20 :=
    address?_table L.fragments_eq _ _ (by decide)
  have h0 : UInt32.ofInt 0 = 0 := rfl
  have h := L.placed_entry
  simp [entry, head, resolve?, Ref.resolve?, hdepth, h0, Instruction.length] at h
  obtain ⟨-, h3, h4, h5, h6⟩ := h
  refine ⟨[6, 12, 40, 46, 48, 54], Nat.le_refl 6, ?_⟩
  rintro ⟨_, r, f, d, _⟩ ⟨rfl, rfl⟩
  refine ⟨_, .step h1 (.constant _ .ebp (by decide)) (.step h2 (.jump .always 40) (.step h3
    (.constant 20 .esi (by decide)) (.step h4 (.alu .xor .edx .edx (by decide) (by decide)) (.step h5
    (.storeCell .edx 0 .esi (by decide) (by decide) rfl) (.step h6
    (.alu .xor .edi .edi (by decide) (by decide)) (.refl _)))))), ?_⟩
  exact ⟨rfl, UInt32.xor_self, rfl, rfl, UInt32.xor_self⟩

theorem leads_entry : L.site.Leads 6 (· = booted) (Site.Between 56 20 []) :=
  L.leads_started.weaken (fun _ h => h ▸ started_booted) fun _ h => h

/-! ### From boundary to boundary -/

/-- The address behind the first `k` fragments: that of the next one, or of the footer. -/
def boundary (k : Nat) : UInt32 := behind 56 (L.fragments.take k).flatten

theorem boundary_length {k : Nat} (h : L.operations.length ≤ k) :
    L.boundary k = behind 56 L.fragments.flatten := by
  rw [boundary, List.take_of_length_le]
  rwa [length_fragmentsFrom L.fragments_eq]

variable {L} {ss : List Step} {k : Nat} {st : OperandStack}

/-- **Up to a boundary.** If the first steps do not fault, their fragments compute the operands. -/
theorem exists_leads_boundary (hs : Steps L.operations ss)
    (h : Step.applyAll L.capacity [] (ss.take k) = .ok st) :
    ∃ b, L.site.Leads (L.operations.length * 2 ^ 35) (Site.Between 56 20 [])
      (Site.Behind (L.boundary k) 20 st (Site.lastKnown (ss.take k) b)) := by
  have hp : L.site.Placed 56 (L.fragments.take k).flatten := by
    have hall := L.placed_fragments
    rw [← List.take_append_drop k L.fragments, List.flatten_append] at hall
    exact (Site.placed_append.1 hall).1
  obtain ⟨b, hlead⟩ := L.ground.exists_leads_fragments (fragmentsFrom_take L.fragments_eq k)
    (List.forall₂_take k hs) hp (Nat.zero_le _) h
  refine ⟨b, hlead.mono (Nat.mul_le_mul_right _ ?_)⟩
  rw [List.length_take]
  exact Nat.min_le_right ..

theorem leads_boundary (hs : Steps L.operations ss)
    (h : Step.applyAll L.capacity [] (ss.take k) = .ok st) :
    L.site.Leads (L.operations.length * 2 ^ 35) (Site.Between 56 20 [])
      (Site.Between (L.boundary k) 20 st) := by
  obtain ⟨b, hlead⟩ := exists_leads_boundary hs h
  exact hlead.weaken (fun _ hv => hv) fun _ hv => hv.toAt

/-- **From a boundary to a fault.** -/
theorem exists_leads_fault_at (hs : Steps L.operations ss) {s : Step} (hk : ss[k]? = some s)
    (hst : st.length ≤ L.capacity) {f : ProgramFault} (hf : s.apply L.capacity st = .error f) :
    ∃ pc, L.site.Leads (2 ^ 35 + 5) (Site.Between (L.boundary k) 20 st)
      (L.site.FaultedAt pc f st) := by
  obtain ⟨hlt, hget⟩ := List.getElem?_eq_some_iff.1 hk
  have hlt' : k < L.operations.length := by rwa [hs.length_eq]
  obtain ⟨m, ls, hfrag, hls⟩ :=
    exists_fragment_getElem? L.fragments_eq (List.getElem?_eq_getElem hlt')
  have hstep : Step.ofOperation? L.operations[k] = some s := hget ▸ hs.get hlt' hlt
  obtain ⟨hlt'', hget'⟩ := List.getElem?_eq_some_iff.1 hls
  have hp : L.site.Placed (L.boundary k) ls := by
    have hall := L.placed_fragments
    rw [← List.take_append_drop k L.fragments, List.flatten_append, List.drop_eq_getElem_cons hlt'',
      List.flatten_cons, hget'] at hall
    exact (Site.placed_append.1 (Site.placed_append.1 hall).2).1
  obtain ⟨b, hlead⟩ := L.ground.exists_leads_fragment hfrag hstep hp hst
  rw [hf] at hlead
  obtain ⟨pc, hfault⟩ := L.exists_leads_fault f st
  exact ⟨pc, hlead.trans hfault⟩

/-- **From the last boundary to the end.** -/
theorem exists_leads_final (hst : st.length ≤ L.capacity) (b : Option UInt32) :
    ∃ pc, L.site.Leads 11 (Site.Behind (L.boundary L.operations.length) 20 st b)
      (L.site.ConcludesAt pc 20 st b (Step.final st)) := by
  rw [L.boundary_length (Nat.le_refl _)]
  have hlead := L.ground.leads_footer L.placed_footer hst (b := b)
  cases hv : Step.final st with
  | ok v =>
    rw [hv] at hlead
    exact ⟨_, hlead.mono (by decide)⟩
  | error f =>
    rw [hv] at hlead
    obtain ⟨pc, hfault⟩ := L.exists_leads_fault f st
    exact ⟨pc, hlead.trans hfault⟩

/-- **From the start to a fault.** -/
theorem exists_leads_first_fault (hs : Steps L.operations ss) {s : Step} (hk : ss[k]? = some s)
    (h : Step.applyAll L.capacity [] (ss.take k) = .ok st) {f : ProgramFault}
    (hf : s.apply L.capacity st = .error f) :
    ∃ pc, L.site.Leads (L.operations.length * 2 ^ 35 + 2 ^ 36) Started
      (L.site.FaultedAt pc f st) := by
  have hst := length_applyAll_le h (Nat.zero_le _)
  obtain ⟨pc, hfault⟩ := exists_leads_fault_at hs hk hst hf
  exact ⟨pc, ((L.leads_started.trans (leads_boundary hs h)).trans hfault).mono (by omega)⟩

theorem leads_first_fault (hs : Steps L.operations ss) {s : Step} (hk : ss[k]? = some s)
    (h : Step.applyAll L.capacity [] (ss.take k) = .ok st) {f : ProgramFault}
    (hf : s.apply L.capacity st = .error f) :
    L.site.Leads (L.operations.length * 2 ^ 35 + 2 ^ 36) (· = booted) (L.site.Faulted f st) := by
  obtain ⟨pc, hlead⟩ := exists_leads_first_fault hs hk h hf
  exact hlead.weaken (fun _ h => h ▸ started_booted) fun _ h => h.toFaulted

/-- **The whole computation.** All views behind the first instruction take the same way to the same
end. -/
theorem exists_leads_value (hs : Steps L.operations ss) :
    ∃ pc st b, L.site.Leads (L.operations.length * 2 ^ 35 + 2 ^ 36) Started
      (L.site.ConcludesAt pc 20 st (Site.lastKnown ss b) (Step.value L.capacity ss)) := by
  cases h : Step.applyAll L.capacity [] ss with
  | ok st =>
    have hvalue : Step.value L.capacity ss = Step.final st := by
      rw [Step.value, h]
      rfl
    have htake : ss.take L.operations.length = ss := by
      rw [hs.length_eq, List.take_length]
    obtain ⟨b, hboundary⟩ :=
      exists_leads_boundary hs (k := L.operations.length) (by rw [htake, h])
    have hst := length_applyAll_le h (Nat.zero_le _)
    obtain ⟨pc, hfinal⟩ := exists_leads_final hst (Site.lastKnown ss b)
    rw [htake] at hboundary
    rw [hvalue]
    exact ⟨pc, st, b, ((L.leads_started.trans hboundary).trans hfinal).mono (by omega)⟩
  | error f =>
    have hvalue : Step.value L.capacity ss = .error f := by
      rw [Step.value, h]
      rfl
    obtain ⟨k, s, st, hk, htake, hf⟩ := exists_fault_of_applyAll h
    obtain ⟨pc, hfault⟩ := exists_leads_first_fault hs hk htake hf
    rw [hvalue]
    exact ⟨pc, st, 0, hfault⟩

theorem leads_value (hs : Steps L.operations ss) :
    L.site.Leads (L.operations.length * 2 ^ 35 + 2 ^ 36) (· = booted)
      (L.site.Concludes (Step.value L.capacity ss)) := by
  obtain ⟨pc, st, b, hlead⟩ := exists_leads_value hs
  exact hlead.weaken (fun _ h => h ▸ started_booted) fun _ h => h.concludes

theorem length_operations_lt : L.operations.length < 2 ^ 32 := by
  have h1 := length_le_size_fragments L.fragments_eq
  have h2 := L.codeEnd_le_floor
  have h3 := L.floor_le_top
  have h4 := L.top_lt
  unfold codeEnd at h2
  omega

/-- Runs of programs are short enough. -/
theorem le_run_none {n : Nat} (h : n ≤ L.operations.length * 2 ^ 35 + 2 ^ 36) :
    n + 2 ≤ 2 ^ 291 := by
  have hlt := length_operations_lt (L := L)
  calc n + 2 ≤ 2 ^ 68 := by omega
    _ ≤ 2 ^ 291 := Nat.pow_le_pow_right Nat.zero_lt_two (by decide : 68 ≤ 291)

/-- **Runs to a halt.** Where views lead from the first one to a `halt`, a run without a limit
finishes. -/
theorem run_of_leads {Q : View → Prop}
    (h : L.site.Leads (L.operations.length * 2 ^ 35 + 2 ^ 36) (· = booted) Q)
    (hQ : ∀ w, Q w → L.site.code w.pc .halt) :
    ∃ s w, L.boot.run none = (s, .finished) ∧ L.site.Rests s w ∧ Q w := by
  obtain ⟨trace, hlen, hlead⟩ := h
  obtain ⟨w, hr, hw⟩ := hlead booted rfl
  obtain ⟨s, hrun, -, hrests⟩ := hr.run_none L.shows_boot (hQ w hw) (le_run_none hlen)
  exact ⟨s, w, hrun, hrests, hw⟩

end Layout

end RpnY86.Code
