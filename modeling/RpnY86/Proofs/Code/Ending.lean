import RpnY86.Proofs.Code.Simulation

/-! # Whole computations

The fragments of operations, one after the other, compute what the steps of the operations do
(`exists_leads_fragments`). Behind them the footer takes the one value that is left into `%eax`, and
a handler leaves the code of its fault in `%edi`; both come to a `halt`. -/

namespace RpnY86.Code

open Y86 (AluOp Condition Instruction Machine Reg Registers signed)

/-! ### Sequences of fragments -/

theorem applyAll_cons_ok {capacity : Nat} {st st' : OperandStack} {s : Step} {ss : List Step}
    (h : Step.applyAll capacity st (s :: ss) = .ok st') :
    ∃ st₁, s.apply capacity st = .ok st₁ ∧ Step.applyAll capacity st₁ ss = .ok st' := by
  simp only [Step.applyAll, List.foldlM_cons] at h
  cases h1 : s.apply capacity st with
  | error f =>
    rw [h1] at h
    cases h
  | ok st₁ =>
    rw [h1] at h
    exact ⟨st₁, rfl, h⟩

theorem length_applyAll_le {capacity : Nat} {st st' : OperandStack} {ss : List Step}
    (h : Step.applyAll capacity st ss = .ok st') (hst : st.length ≤ capacity) :
    st'.length ≤ capacity := by
  induction ss generalizing st with
  | nil =>
    obtain rfl := Except.ok.inj h
    exact hst
  | cons s ss ih =>
    obtain ⟨st₁, h1, h2⟩ := applyAll_cons_ok h
    exact ih h2 (Step.length_apply_le h1 hst)

theorem exists_fault_of_applyAll {capacity : Nat} {st : OperandStack} {ss : List Step}
    {f : ProgramFault} (h : Step.applyAll capacity st ss = .error f) :
    ∃ k s st', ss[k]? = some s ∧ Step.applyAll capacity st (ss.take k) = .ok st' ∧
      s.apply capacity st' = .error f := by
  induction ss generalizing st with
  | nil => exact nomatch h
  | cons s ss ih =>
    simp only [Step.applyAll, List.foldlM_cons] at h
    cases h1 : s.apply capacity st with
    | error g =>
      rw [h1] at h
      obtain rfl := Except.error.inj h
      exact ⟨0, s, st, rfl, rfl, h1⟩
    | ok st₁ =>
      rw [h1] at h
      obtain ⟨k, t, st', hk, hok, ht⟩ := ih h
      refine ⟨k + 1, t, st', hk, ?_, ht⟩
      rw [List.take_succ_cons, Step.applyAll, List.foldlM_cons, h1]
      exact hok

namespace Site

variable {S : Site} {a si : UInt32} {capacity : Nat} {handler : ProgramFault → UInt32}
  {st st' : OperandStack}

/-- **Fragments compute.** As long as there is no fault, fragments lead through the stacks of the
steps. -/
theorem Ground.exists_leads_fragments (g : S.Ground si capacity handler) {n : Nat}
    {os : List Operation}
    {ss : List Step} {fs : List (List Line)} (hf : fragmentsFrom n os = .ok fs)
    (hs : Steps os ss) (hp : S.Placed a fs.flatten) (hst : st.length ≤ capacity)
    (h : Step.applyAll capacity st ss = .ok st') :
    ∃ b, S.Leads (os.length * 2 ^ 35) (Between a si st)
      (Behind (behind a fs.flatten) si st' (lastKnown ss b)) := by
  induction hs generalizing n a st fs with
  | nil =>
    obtain rfl := Except.ok.inj hf
    obtain rfl := Except.ok.inj h
    exact ⟨0, ((Leads.refl _).mono (by omega)).weaken (fun _ hv => hv) fun _ hv => hv.left⟩
  | @cons o s os ss hs hrest ih =>
    obtain ⟨ls, gs, hfrag, hr, rfl⟩ := fragmentsFrom_cons hf
    obtain ⟨st₁, h1, h2⟩ := applyAll_cons_ok h
    obtain ⟨hp1, hp2⟩ := placed_append.1 hp
    obtain ⟨b, hfirst⟩ := g.exists_leads_fragment hfrag hs hp1 hst
    rw [h1] at hfirst
    rw [List.flatten_cons, behind_append, List.length_cons]
    cases hrest with
    | nil =>
      obtain rfl := Except.ok.inj hr
      obtain rfl := Except.ok.inj h2
      exact ⟨b, hfirst.mono (by omega)⟩
    | cons =>
      -- what this fragment leaves in `%ebx` is overwritten by the last one
      obtain ⟨b', hlast⟩ := ih hr hp2 (Step.length_apply_le h1 hst) h2
      have hbetween := hfirst.weaken (fun _ hv => hv) fun _ hv => hv.toAt
      exact ⟨b', (hbetween.trans hlast).mono (by omega)⟩

/-! ### The footer -/

/-- A view before the `halt` of a computation that has a value. -/
structure Valued (S : Site) (v : UInt32) (w : View) : Prop where
  halts : S.code w.pc .halt
  eax : w.registers.get .eax = v
  edi : w.registers.get .edi = 0
  stack : w.stack = []

/-- The place of that view and its registers `%esi` and `%ebx`. -/
structure ValuedAt (S : Site) (pc si v : UInt32) (b : Option UInt32) (w : View) : Prop
    extends Valued S v w where
  pc : w.pc = pc
  esi : w.registers.get .esi = si
  ebx : ∀ x ∈ b, w.registers.get .ebx = x

/-- How the footer ends for the operands `st`, given the value that they are. -/
def FooterEnds (S : Site) (handler : ProgramFault → UInt32) (pc si : UInt32) (st : OperandStack)
    (b : Option UInt32) : Except ProgramFault UInt32 → View → Prop
  | .ok v => S.ValuedAt pc si v b
  | .error f => Between (handler f) si st

/-- **The footer** takes the value, or finds that there is not just one. -/
theorem Ground.leads_footer (g : S.Ground si capacity handler) (hp : S.Placed a footer)
    (hst : st.length ≤ capacity) {b : Option UInt32} :
    S.Leads 6 (Behind a si st b)
      (S.FooterEnds handler (a + 6 + 6 + 2 + 5 + 5 + 2) si st b (Step.final st)) := by
  have h0 : UInt32.ofInt 0 = 0 := rfl
  have hs : S.labels.address? stackError = _ := g.handlers .stackError
  have hf : S.labels.address? stackTooFull = _ := g.handlers .stackTooFull
  simp [footer, loadDepth, loadAt, setTo, goto, resolve?, Ref.resolve?, Instruction.length, hs, hf,
    h0] at hp
  obtain ⟨h1, h2, h3, h4, h5, h6, h7⟩ := hp
  have hl : _ ↔ signed (UInt32.ofNat st.length) < 1 :=
    Condition.holds_flags_sub .l 1 (UInt32.ofNat st.length)
  have hg : _ ↔ 1 < signed (UInt32.ofNat st.length) :=
    Condition.holds_flags_sub .g 1 (UInt32.ofNat st.length)
  rw [g.signed_ofNat hst] at hl hg
  have hless : S.Leads 4 (Left a si 0 (UInt32.ofNat st.length) st b) _ :=
    (leads_compareDepth h1 h2 h3 g.data.cell).trans (leads_jump h4)
  simp only [hl] at hless
  rcases st with _ | ⟨v, _ | ⟨x, st⟩⟩
  · rw [if_pos (by simp)] at hless
    exact (hless.mono (by omega)).weaken (fun _ hv => hv) fun _ hv => hv.toAt
  · rw [if_neg (by simp)] at hless
    have hmore := hless.trans (leads_jump h5)
    rw [if_neg (by rw [hg]; simp)] at hmore
    refine hmore.trans (n := 1) ⟨[a + 6 + 6 + 2 + 5 + 5], Nat.le_refl 1, ?_⟩
    rintro ⟨_, r, f, _, _⟩ ⟨⟨⟨rfl, rfl, rfl, hsi, hdi⟩, hb⟩, -⟩
    exact ⟨_, .step h6 (.pop .eax (by decide)) (.refl _), ⟨h7, by simp, hdi, rfl⟩, rfl, hsi, hb⟩
  · rw [if_neg (by simp only [List.length_cons]; omega)] at hless
    have hmore := hless.trans (leads_jump h5)
    rw [if_pos (by rw [hg]; simp only [List.length_cons]; omega)] at hmore
    exact (hmore.mono (by omega)).weaken (fun _ hv => hv) fun _ hv => hv.toAt

/-! ### Handlers -/

/-- A view before the `halt` behind a fault, with the operands that were there. -/
structure Faulted (S : Site) (f : ProgramFault) (st : OperandStack) (w : View) : Prop where
  halts : S.code w.pc .halt
  edi : w.registers.get .edi = f.code
  esi : w.registers.get .esi = -1
  ebx : w.registers.get .ebx = 0
  depth : w.depth = UInt32.ofNat st.length
  stack : w.stack = st

/-- The place of that view. -/
structure FaultedAt (S : Site) (pc : UInt32) (f : ProgramFault) (st : OperandStack) (w : View) :
    Prop extends Faulted S f st w where
  pc : w.pc = pc

/-- **Handlers** leave their code. -/
theorem leads_handler {b c : UInt32} {f : ProgramFault} {cell : String} {explanation : List String}
    (hh : S.Placed a (Code.handler f cell explanation)) (he : S.Placed b faultExit)
    (hc : S.labels.address? cell = some c) (hsize : c.toNat + 4 ≤ S.home.size)
    (houtside : ∀ k < 4, ¬ S.zone.Covers (c.toNat + k)) (hvalue : S.home.wordAt c.toNat = f.code) :
    S.Leads 5 (Between a si st) (S.FaultedAt (b + 6 + 2 + 6) f st) := by
  have h0 : UInt32.ofInt 0 = 0 := rfl
  have h1 : UInt32.ofInt (-1) = -1 := rfl
  simp [Code.handler, placed_append, behind_map_heading, goto, resolve?, Ref.resolve?,
    Instruction.length, hc] at hh
  simp [faultExit, loadAt, setTo, resolve?, Ref.resolve?, Instruction.length, h0, h1] at he
  obtain ⟨-, -, h2, e, he', h3⟩ := hh
  obtain ⟨he, h4, h5, h6, h7⟩ := he
  obtain rfl := Option.some.inj (he.symm.trans he')
  refine leads_at [a, a + 6, b, b + 6, b + 6 + 2] (Nat.le_refl 5) fun r f' hsi hdi => ?_
  refine ⟨_, .step h2 (.constant c .ebx (by decide)) (.step h3 (.jump .always b) (.step h4
    (.loadHome 0 .ebx .edi (by decide) (by decide) ?_ ?_) (.step h5
    (.alu .xor .ebx .ebx (by decide) (by decide)) (.step h6 (.constant (-1) .esi (by decide))
    (.refl _))))), ?_⟩
  · simpa using hsize
  · simpa using houtside
  · refine ⟨⟨h7, ?_, by simp, ?_, rfl, rfl⟩, rfl⟩
    · simpa using hvalue
    · simp [AluOp.result]

end Site

end RpnY86.Code
