import RpnY86.Code.Program
import RpnY86.Proofs.Code.Divide
import RpnY86.Proofs.Code.Fragments
import RpnY86.Proofs.Code.Multiply
import RpnY86.Proofs.Code.Straight

/-! # Fragments simulate operations

Between fragments a view holds the operands, their number as depth, the address of the depth in
`%esi`, and zero in `%edi` (`Between`). The fragment of an operation leads from one such view to the
next, with the operands that the step of the operation leaves; if the step faults, it leads to the
handler of the fault, with operands and depth as they were (`exists_leads_fragment`). The operands
also decide what it leaves in `%ebx`, unless it only pushes a number. -/

namespace RpnY86.Code

open Y86 (AluOp Instruction signed)

namespace Site

variable {S : Site} {a si : UInt32} {capacity : Nat} {handler : ProgramFault → UInt32}
  {st st' : OperandStack}

/-- What fragments rely on: the capacity lies behind the depth, the stack region is as large as it
says, and there are handlers. -/
structure Ground (S : Site) (si : UInt32) (capacity : Nat) (handler : ProgramFault → UInt32) :
    Prop where
  data : S.HasCapacity si (UInt32.ofNat capacity)
  room : S.capacity = 4 * capacity
  handlers : ∀ f, S.labels.address? (faultLabel f) = some (handler f)

/-- A view between fragments. -/
def Between (pc si : UInt32) (st : OperandStack) : View → Prop :=
  At pc si 0 (UInt32.ofNat st.length) st

/-- A view between fragments that has `b` in `%ebx`, if that is known. -/
def Behind (pc si : UInt32) (st : OperandStack) (b : Option UInt32) : View → Prop :=
  Left pc si 0 (UInt32.ofNat st.length) st b

/-- How a fragment for the operands `st` ends, given what the operation does to them. -/
def Ends (handler : ProgramFault → UInt32) (pc si : UInt32) (st : OperandStack)
    (b : Option UInt32) : Except ProgramFault OperandStack → View → Prop
  | .ok st' => Behind pc si st' b
  | .error f => Between (handler f) si st

/-- How the core of a fragment ends, which leaves the depth `d` as it is. -/
def CoreEnds (handler : ProgramFault → UInt32) (pc si d : UInt32) (st : OperandStack)
    (b : Option UInt32) : Except ProgramFault OperandStack → View → Prop
  | .ok st' => Left pc si 0 d st' b
  | .error f => At (handler f) si 0 d st

/-- What is known of `%ebx` behind a step that leaves `b` there. -/
def known : Step → UInt32 → Option UInt32
  | .number _, _ => none
  | _, b => some b

/-- What is known of `%ebx` behind steps of which the last one leaves `b` there. -/
def lastKnown (ss : List Step) (b : UInt32) : Option UInt32 := ss.getLast?.bind (known · b)

namespace Ground

/-! ### Guards -/

theorem capacity_le (g : S.Ground si capacity handler) : capacity ≤ 2 ^ 30 := by
  have h1 := g.room
  have h2 := S.capacity_le_top
  have h3 := S.top_le_range
  omega

theorem signed_ofNat (g : S.Ground si capacity handler) {n : Nat} (hn : n ≤ capacity) :
    signed (UInt32.ofNat n) = n := by
  have := g.capacity_le
  rw [Y86.signed_ofNat, Int.bmod_eq_of_le (by omega) (by omega)]

/-- The guards of a fragment let through just the stacks that have the operands and the room. -/
theorem leads_guards (g : S.Ground si capacity handler) {pops : Nat} {delta : Int}
    (hpops : pops < 2 ^ 31) (hdelta : delta < 2 ^ 31)
    (hp : S.Placed a (requireDepth pops ++ requireRoom delta)) (hst : st.length ≤ capacity) :
    S.Leads 10 (Between a si st)
      (Between (if st.length < pops then handler .stackError
        else if (capacity : Int) < st.length + delta then handler .stackTooFull
        else behind a (requireDepth pops ++ requireRoom delta)) si st) := by
  obtain ⟨hp1, hp2⟩ := placed_append.1 hp
  have hdepth : S.Leads 4 (Between a si st)
      (Between (if st.length < pops then handler .stackError else behind a (requireDepth pops)) si
        st) := by
    by_cases h0 : pops = 0
    · have hnil : requireDepth pops = [] := if_pos (by omega)
      rw [hnil, if_neg (by omega)]
      exact (Leads.refl _).mono (by omega)
    · have h : S.Leads 4 (At a si 0 (UInt32.ofNat st.length) st) _ :=
        leads_requireDepth (by omega) (by omega) hp1 g.data.cell (g.handlers .stackError)
      rw [g.signed_ofNat hst] at h
      simp only [Int.ofNat_lt] at h
      exact h
  have hroom : S.Leads 6 (Between (behind a (requireDepth pops)) si st)
      (Between (if (capacity : Int) < st.length + delta then handler .stackTooFull
        else behind a (requireDepth pops ++ requireRoom delta)) si st) := by
    rw [behind_append]
    by_cases h0 : delta ≤ 0
    · have hnil : requireRoom delta = [] := if_pos h0
      rw [hnil, if_neg (by omega)]
      exact (Leads.refl _).mono (by omega)
    · have h : S.Leads 6 (At _ si 0 (UInt32.ofNat st.length) st) _ :=
        leads_requireRoom (by omega) hdelta hp2 g.data (by rw [g.signed_ofNat hst]; omega)
          (by rw [g.signed_ofNat (Nat.le_refl _)]; omega) (g.handlers .stackTooFull)
      rw [g.signed_ofNat hst, g.signed_ofNat (Nat.le_refl _)] at h
      exact h
  by_cases h1 : st.length < pops
  · rw [if_pos h1] at hdepth ⊢
    exact hdepth.mono (by omega)
  · rw [if_neg h1] at hdepth ⊢
    exact hdepth.trans hroom

/-! ### Fragments around a core -/

section framed

variable {o : Opcode} {e : StackEffect} {code : List Line}

theorem placed_framed (hp : S.Placed a (framed o e code)) :
    ∃ b, S.Placed a (requireDepth e.pops ++ requireRoom e.delta) ∧
      b = behind a (requireDepth e.pops ++ requireRoom e.delta) ∧ S.Placed b code ∧
      S.Placed (behind b code) (adjustDepth e.delta) ∧
      behind a (framed o e code) = behind (behind b code) (adjustDepth e.delta) := by
  unfold framed opening at hp
  refine ⟨_, ?_, rfl, ?_, ?_, ?_⟩
  all_goals simp [placed_append, behind_append, framed, opening] at hp ⊢
  all_goals grind

theorem leads_shallow (g : S.Ground si capacity handler) (hp : S.Placed a (framed o e code))
    (hpops : e.pops < 2 ^ 31) (hdelta : e.delta < 2 ^ 31) (hst : st.length ≤ capacity)
    (h : st.length < e.pops) :
    S.Leads 10 (Between a si st) (Between (handler .stackError) si st) := by
  obtain ⟨-, hguards, -⟩ := placed_framed hp
  have hlead := g.leads_guards hpops hdelta hguards hst
  rwa [if_pos h] at hlead

theorem leads_full (g : S.Ground si capacity handler) (hp : S.Placed a (framed o e code))
    (hpops : e.pops < 2 ^ 31) (hdelta : e.delta < 2 ^ 31) (hst : st.length ≤ capacity)
    (h : e.pops ≤ st.length) (h' : (capacity : Int) < st.length + e.delta) :
    S.Leads 10 (Between a si st) (Between (handler .stackTooFull) si st) := by
  obtain ⟨-, hguards, -⟩ := placed_framed hp
  have hlead := g.leads_guards hpops hdelta hguards hst
  rwa [if_neg (by omega), if_pos h'] at hlead

/-- Behind the guards, the core decides. -/
theorem leads_framed (g : S.Ground si capacity handler) (hp : S.Placed a (framed o e code))
    (hpops : e.pops < 2 ^ 31) (hdelta : e.delta < 2 ^ 31) (hst : st.length ≤ capacity)
    (h : e.pops ≤ st.length) (h' : st.length + e.delta ≤ capacity) {n : Nat}
    {r : Except ProgramFault OperandStack}
    (hr : ∀ st', r = .ok st' → st'.length = st.length + e.delta)
    {k : UInt32 → Option UInt32}
    (hcode : ∀ b d, S.Placed b code → ∃ x,
      S.Leads n (At b si 0 d st) (CoreEnds handler (behind b code) si d st (k x) r)) :
    ∃ x, S.Leads (n + 14) (Between a si st)
      (Ends handler (behind a (framed o e code)) si st (k x) r) := by
  obtain ⟨b, hguards, hb, hbcode, hadjust, hend⟩ := placed_framed hp
  have hlead := g.leads_guards hpops hdelta hguards hst
  rw [if_neg (by omega), if_neg (by omega), ← hb] at hlead
  obtain ⟨x, hx⟩ := hcode b _ hbcode
  have hcore := hlead.trans hx
  refine ⟨x, ?_⟩
  cases r with
  | error f => exact hcore.mono (by omega)
  | ok st' =>
    have hlen := hr st' rfl
    have hdepth : UInt32.ofNat st'.length = UInt32.ofNat st.length + UInt32.ofInt e.delta := by
      rw [← Y86.ofInt_natCast, hlen, UInt32.ofInt_add, Y86.ofInt_natCast]
    change S.Leads _ _ (Left _ si 0 (UInt32.ofNat st'.length) st' _)
    rw [hend, hdepth]
    by_cases h0 : e.delta = 0
    · have hnil : adjustDepth e.delta = [] := if_pos h0
      have hzero : UInt32.ofInt 0 = 0 := rfl
      rw [hnil, h0, hzero, UInt32.add_zero]
      exact hcore.mono (by omega)
    · exact (hcore.trans (leads_adjustDepth h0 hadjust g.data.cell)).mono (by omega)

/-- A fragment that replaces two operands by one. -/
theorem leads_binary (g : S.Ground si capacity handler) (hp : S.Placed a (framed o ⟨2, 1⟩ code))
    (hst : st.length ≤ capacity) (op : BinaryOp) {n : Nat}
    (hcode : ∀ b d x y st, S.Placed b code → 4 * (st.length + 2) ≤ S.capacity →
      ∃ z, S.Leads n (At b si 0 d (y :: x :: st))
        (CoreEnds handler (behind b code) si d (y :: x :: st) (some z)
          ((· :: st) <$> op.result x y))) :
    ∃ z, S.Leads (n + 14) (Between a si st)
      (Ends handler (behind a (framed o ⟨2, 1⟩ code)) si st (some z)
        ((Step.binary op).apply capacity st)) := by
  have hdelta : StackEffect.delta ⟨2, 1⟩ = -1 := rfl
  match st, hst with
  | [], hst | [_], hst =>
    exact ⟨0, (g.leads_shallow hp (by decide) (by decide) hst (by simp)).mono (by omega)⟩
  | y :: x :: st, hst =>
    have hroom : 4 * (st.length + 2) ≤ S.capacity := by
      rw [g.room]
      simp only [List.length_cons] at hst
      omega
    refine g.leads_framed hp (by decide) (by decide) hst (by simp) (by omega) ?_ fun b d hb =>
      hcode b d x y st hb hroom
    intro st' h
    change (· :: st) <$> op.result x y = .ok st' at h
    cases hr : op.result x y with
    | error f =>
      rw [hr] at h
      exact nomatch h
    | ok z =>
      rw [hr] at h
      obtain rfl := Except.ok.inj h
      simp only [List.length_cons, hdelta]
      omega

theorem leads_alu (g : S.Ground si capacity handler) {op : BinaryOp} {alu : AluOp}
    (hop : ∀ x y, op.result x y = .ok (alu.result y x))
    (hp : S.Placed a (framed o ⟨2, 1⟩ (arithmetic alu))) (hst : st.length ≤ capacity) :
    ∃ z, S.Leads (2 ^ 35) (Between a si st)
      (Ends handler (behind a (framed o ⟨2, 1⟩ (arithmetic alu))) si st (some z)
        ((Step.binary op).apply capacity st)) := by
  obtain ⟨z, hz⟩ := g.leads_binary (n := 4) hp hst op fun b d x y st hb hroom => by
    have hroom' : 4 * (st.length + 1) ≤ S.capacity := by omega
    rw [hop]
    exact ⟨_, leads_arithmetic hb hroom'⟩
  exact ⟨z, hz.mono (by omega)⟩

/-- A fragment that puts one more word on the stack. -/
theorem leads_pushing (g : S.Ground si capacity handler) {pops : Nat} {v : UInt32}
    (hp : S.Placed a (framed o ⟨pops, pops + 1⟩ code)) (hst : st.length ≤ capacity)
    (hpops : pops < 2 ^ 31) (h : pops ≤ st.length) {n : Nat} {k : UInt32 → Option UInt32}
    (hcode : ∀ b d, S.Placed b code → 4 * (st.length + 1) ≤ S.capacity →
      ∃ x, S.Leads n (At b si 0 d st) (Left (behind b code) si 0 d (v :: st) (k x))) :
    ∃ x, S.Leads (n + 14) (Between a si st)
      (Ends handler (behind a (framed o ⟨pops, pops + 1⟩ code)) si st (k x)
        (Step.push capacity v st)) := by
  have hdelta : StackEffect.delta ⟨pops, pops + 1⟩ = 1 := by simp only [StackEffect.delta]; omega
  unfold Step.push
  by_cases hlt : st.length < capacity
  · rw [if_pos hlt]
    refine g.leads_framed hp hpops (by omega) hst h (by omega) ?_ fun b d hb =>
      hcode b d hb (by rw [g.room]; omega)
    intro st' h'
    obtain rfl := Except.ok.inj h'
    simp only [List.length_cons, hdelta]
    omega
  · rw [if_neg hlt]
    exact ⟨0, (g.leads_full hp hpops (by omega) hst h (by omega)).mono (by omega)⟩

theorem leads_swapping (g : S.Ground si capacity handler)
    (hp : S.Placed a (framed o ⟨2, 2⟩ exchange)) (hst : st.length ≤ capacity) :
    ∃ z, S.Leads 18 (Between a si st)
      (Ends handler (behind a (framed o ⟨2, 2⟩ exchange)) si st (some z)
        (Step.swap.apply capacity st)) := by
  have hdelta : StackEffect.delta ⟨2, 2⟩ = 0 := rfl
  rcases st with _ | ⟨y, _ | ⟨x, st⟩⟩
  · exact ⟨0, (g.leads_shallow hp (by decide) (by decide) hst (by simp)).mono (by omega)⟩
  · exact ⟨0, (g.leads_shallow hp (by decide) (by decide) hst (by simp)).mono (by omega)⟩
  · have hroom : 4 * (st.length + 2) ≤ S.capacity := by
      rw [g.room]
      simp only [List.length_cons] at hst
      omega
    refine g.leads_framed hp (by decide) (by decide) hst (by simp) (by omega) ?_ fun b d hb =>
      ⟨x, leads_exchange hb hroom⟩
    intro st' h
    obtain rfl := Except.ok.inj h
    simp only [List.length_cons, hdelta]
    omega

end framed

/-! ### Fragments -/

/-- **Fragments simulate operations.** -/
theorem exists_leads_fragment (g : S.Ground si capacity handler) {n : Nat} {o : Operation}
    {s : Step} {ls : List Line} (hf : fragment n o = .ok ls) (hs : Step.ofOperation? o = some s)
    (hp : S.Placed a ls) (hst : st.length ≤ capacity) :
    ∃ b, S.Leads (2 ^ 35) (Between a si st)
      (Ends handler (behind a ls) si st (known s b) (s.apply capacity st)) := by
  obtain ⟨e, code, he, hc, rfl⟩ := fragment_eq_ok hf
  obtain ⟨opcode, literal, pos⟩ := o
  cases opcode with
  | other code => exact nomatch he
  | push =>
    obtain rfl := Option.some.inj he
    obtain ⟨v, hv, rfl⟩ := core_push_eq_ok.1 hc
    simp only [Step.ofOperation?, hv] at hs
    obtain rfl := Option.some.inj hs
    obtain ⟨b, hb⟩ := g.leads_pushing hp hst (by omega) (by omega) (k := known (.number _))
      fun b d hb hroom => ⟨0, (leads_pushNumber hb hroom).weaken (fun _ hv => hv)
        fun _ hv => hv.left⟩
    exact ⟨b, hb.mono (by omega)⟩
  | dup =>
    obtain rfl := Option.some.inj he
    obtain rfl := Option.some.inj hs
    obtain rfl := Except.ok.inj hc
    rcases st with _ | ⟨x, st⟩
    · exact ⟨0, (g.leads_shallow hp (by decide) (by decide) hst (by simp)).mono (by omega)⟩
    · obtain ⟨b, hb⟩ := g.leads_pushing hp hst (by omega) (by simp) (k := some)
        fun b d hb hroom => ⟨x, leads_duplicate hb hroom⟩
      exact ⟨b, hb.mono (by omega)⟩
  | swap =>
    obtain rfl := Option.some.inj he
    obtain rfl := Option.some.inj hs
    obtain rfl := Except.ok.inj hc
    obtain ⟨b, hb⟩ := g.leads_swapping hp hst
    exact ⟨b, hb.mono (by omega)⟩
  | plus | minus | and | xor =>
    obtain rfl := Option.some.inj he
    obtain rfl := Option.some.inj hs
    obtain rfl := Except.ok.inj hc
    exact g.leads_alu (fun _ _ => rfl) hp hst
  | multiply =>
    obtain rfl := Option.some.inj he
    obtain rfl := Option.some.inj hs
    obtain rfl := Except.ok.inj hc
    obtain ⟨b, hb⟩ := g.leads_binary (n := 2 ^ 34) hp hst .mul fun b d x y st hb hroom =>
      leads_multiply hb (by omega)
    exact ⟨b, hb.mono (by omega)⟩
  | divide =>
    obtain rfl := Option.some.inj he
    obtain rfl := Option.some.inj hs
    obtain rfl := Except.ok.inj hc
    have hzero := g.handlers .divideByZero
    obtain ⟨b, hb⟩ := g.leads_binary (n := 10540) hp hst .div fun b d x y st hb hroom => by
      simp only [BinaryOp.result]
      by_cases hy : y = 0
      · rw [if_pos hy, hy]
        exact ⟨0, (leads_divide_zero hb hzero).mono (by omega)⟩
      · rw [if_neg hy]
        exact leads_divide hb hzero hroom hy
    exact ⟨b, hb.mono (by omega)⟩

end Ground

end Site

end RpnY86.Code
