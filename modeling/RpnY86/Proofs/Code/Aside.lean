import RpnY86.Proofs.Code.Placed

/-! # Code beside its operands

Code that works on two operands can stand anywhere in memory, and its operands anywhere else: in the
word at an address `p`, the upper one, and in the word at `p + 4`. Nothing is said about where the
two words lie with respect to each other, so `p + 4` may be past the end of the address space.

Runs over views do not know where operands lie. So the code is looked at as standing at a site with
a stack region of two words that is of no importance otherwise (`Site.aside`). A machine with its
operands at `p` and `p + 4` follows the runs at that site (`Follows`): step by step
(`Follows.step`), and along the whole trace (`Follows.run`). -/

namespace RpnY86.Code

open Assembly (LabelTable)
open Y86 (Condition Flags Instruction Machine Memory Reg Registers)

/-! ### The site -/

/-- Loads through the stack pointer only. -/
def Plain : Instruction UInt32 → Prop
  | .load _ base _ => base = some .esp
  | _ => True

/-- A place for two words beside the `n` bytes from `a` on. -/
def spare (a n : Nat) : Nat := if 8 ≤ a then 0 else a + n

/-- The code in the `n` bytes of a memory from address `a` on, with a stack of two words. -/
def Site.aside (m : Memory) (labels : LabelTable) (a : UInt32) (n : Nat)
    (hn : n ≤ 2 ^ 31) : Site where
  labels := labels
  home := ⟨m.size + 2 ^ 32, m.bytes⟩
  code c i := m.HoldsAt c i.encode ∧ a.toNat ≤ c.toNat ∧ c.toNat + i.length ≤ a.toNat + n ∧ Plain i
  zone := { floor := spare a.toNat n, top := spare a.toNat n + 8, cell := none }
  floor_le_top := Nat.le_add_right _ _
  top_le_size := by
    change spare a.toNat n + 8 ≤ m.size + 2 ^ 32
    unfold spare
    split_ifs <;> omega
  top_le_range := by
    change spare a.toNat n + 8 ≤ 2 ^ 32
    unfold spare
    split_ifs <;> omega
  cell_le_size _ hc := nomatch hc
  cell_outside _ hc := nomatch hc
  code_holds c i hi := hi.1.congr (Nat.le_add_right _ _) fun _ _ => rfl
  code_outside c i hi k hk := by
    rintro (⟨hlow, hhigh⟩ | ⟨_, hcell, -⟩)
    · have hlow : spare a.toNat n ≤ c.toNat + k := hlow
      have hhigh : c.toNat + k < spare a.toNat n + 8 := hhigh
      have := hi.2.1
      have := hi.2.2.1
      unfold spare at hlow hhigh
      split_ifs at hlow hhigh <;> omega
    · cases hcell

theorem Site.capacity_aside {m : Memory} {labels : LabelTable} {a : UInt32} {n : Nat}
    {hn : n ≤ 2 ^ 31} : (Site.aside m labels a n hn).capacity = 8 :=
  Nat.add_sub_cancel_left _ 8

/-! ### Two words -/

/-- The byte at position `n` belongs to the word at `p` or to the word at `p + 4`. -/
def InPair (p : UInt32) (n : Nat) : Prop :=
  (p.toNat ≤ n ∧ n < p.toNat + 4) ∨ ((p + 4).toNat ≤ n ∧ n < (p + 4).toNat + 4)

/-- At most two operands in the words at `p` and `p + 4`. -/
def Stacked (m : Memory) (p : UInt32) : OperandStack → Prop
  | [] => True
  | [x] => m.wordAt (p + 4).toNat = x
  | [y, x] => m.wordAt p.toNat = y ∧ m.wordAt (p + 4).toNat = x
  | _ => False

theorem Stacked.length_le {m : Memory} {p : UInt32} {st : OperandStack} (h : Stacked m p st) :
    st.length ≤ 2 := by
  rcases st with _ | ⟨x, _ | ⟨y, _ | ⟨z, st⟩⟩⟩
  · exact Nat.zero_le 2
  · exact Nat.le_succ 1
  · exact Nat.le_refl 2
  · exact h.elim

/-- The stack pointer above which there are `k` of two operands. -/
def pointer (p : UInt32) (k : Nat) : UInt32 := p + UInt32.ofNat (8 - 4 * k)

theorem disjoint_pair (p : UInt32) :
    p.toNat + 4 ≤ (p + 4).toNat ∨ (p + 4).toNat + 4 ≤ p.toNat := by
  have hp := p.toNat_lt
  have hsum : (p + 4).toNat = (p.toNat + 4) % 2 ^ 32 := UInt32.toNat_add p 4
  omega

/-- A running machine with its operands in the words at `p` and `p + 4` looks like a view. -/
structure Follows (home : Memory) (p : UInt32) (s : Machine) (v : View) : Prop where
  running : s.status = .running
  pc : s.pc = v.pc
  flags : s.flags = v.flags
  get : ∀ r, r ≠ .esp → s.get r = v.registers.get r
  esp : s.get .esp = pointer p v.stack.length
  size : s.memory.size = home.size
  frame : ∀ n, ¬ InPair p n → s.memory.byteAt n = home.byteAt n
  stacked : Stacked s.memory p v.stack

namespace Follows

variable {home : Memory} {p pc d : UInt32} {s : Machine} {r : Registers} {f : Flags}
  {st : OperandStack}

/-- The machine with a word in a register other than `%esp`, at another place and with other
flags. -/
theorem put (h : Follows home p s ⟨pc, r, f, d, st⟩) {dst : Reg} (hd : dst ≠ .esp)
    (x pc' : UInt32) (f' : Flags) :
    Follows home p { s with registers := s.registers.set dst x, pc := pc', flags := f' }
      ⟨pc', r.set dst x, f', d, st⟩ :=
  { h with
    pc := rfl
    flags := rfl
    get := fun q hq => by
      have := h.get q hq
      simp only [Machine.get, Registers.get_set] at this ⊢
      rw [this]
    esp := by
      have := h.esp
      simp only [Machine.get, Registers.get_set, if_neg (Ne.symm hd)] at this ⊢
      rw [this] }

theorem goto (h : Follows home p s ⟨pc, r, f, d, st⟩) (pc' : UInt32) :
    Follows home p { s with pc := pc' } ⟨pc', r, f, d, st⟩ :=
  { h with pc := rfl }

theorem restack (h : Follows home p s ⟨pc, r, f, d, st⟩) {m : Memory} (hsize : m.size = home.size)
    (hframe : ∀ n, ¬ InPair p n → m.byteAt n = home.byteAt n) {st' : OperandStack}
    (hst : Stacked m p st') (pc' : UInt32) :
    Follows home p
      { s with registers := s.registers.set .esp (pointer p st'.length), memory := m, pc := pc' }
      ⟨pc', r, f, d, st'⟩ :=
  { h with
    pc := rfl
    get := fun q hq => by
      have := h.get q hq
      simp only [Machine.get, Registers.get_set, if_neg hq] at this ⊢
      exact this
    esp := by simp only [Machine.get, Registers.get_set, if_true]
    size := hsize
    frame := hframe
    stacked := hst }

theorem frame_setWord (h : Follows home p s ⟨pc, r, f, d, st⟩) {a : UInt32}
    (ha : a = p ∨ a = p + 4) (x : UInt32) (n : Nat) (hn : ¬ InPair p n) :
    (s.memory.setWord a x).byteAt n = home.byteAt n := by
  have hout : n < a.toNat ∨ a.toNat + 4 ≤ n := by
    by_contra hin
    rcases ha with rfl | rfl
    · exact hn (.inl ⟨by omega, by omega⟩)
    · exact hn (.inr ⟨by omega, by omega⟩)
  rw [Memory.byteAt_setWord_of_ne _ _ _ hout, h.frame n hn]

section memory

variable (h : Follows home p s ⟨pc, r, f, d, st⟩) (hp : home.hasWord p = true)
  (hp' : home.hasWord (p + 4) = true)

include h

theorem word? {a : UInt32} (ha : home.hasWord a = true) :
    s.memory.word? a = some (s.memory.wordAt a.toNat) := by
  have ha' : s.memory.hasWord a = true := by
    rw [Memory.hasWord_iff] at ha ⊢
    rw [h.size]
    exact ha
  rw [Memory.word?, if_pos ha']

include hp hp'

theorem word?_top {x : UInt32} {st' : OperandStack} (hst : st = x :: st') :
    s.memory.word? (s.get .esp) = some x := by
  subst hst
  have hesp := h.esp
  have hstacked := h.stacked
  rcases st' with _ | ⟨y, _ | ⟨z, st'⟩⟩
  · have hpoint : s.get .esp = p + 4 := hesp
    rw [hpoint, h.word? hp']
    exact congrArg some hstacked
  · have hpoint : s.get .esp = p := hesp.trans (UInt32.add_zero p)
    rw [hpoint, h.word? hp]
    exact congrArg some hstacked.1
  · exact hstacked.elim

omit hp hp' in
theorem stacked_tail {x : UInt32} {st' : OperandStack} (hst : st = x :: st') :
    Stacked s.memory p st' ∧ s.get .esp + 4 = pointer p st'.length := by
  subst hst
  have hesp := h.esp
  have hstacked := h.stacked
  rcases st' with _ | ⟨y, _ | ⟨z, st'⟩⟩
  · refine ⟨trivial, ?_⟩
    have hpoint : s.get .esp = p + 4 := hesp
    rw [hpoint, UInt32.add_assoc]
    rfl
  · refine ⟨hstacked.2, ?_⟩
    have hpoint : s.get .esp = p := hesp.trans (UInt32.add_zero p)
    rw [hpoint]
    rfl
  · exact hstacked.elim

theorem push (x : UInt32) (hroom : st.length < 2) :
    home.hasWord (s.get .esp - 4) = true ∧ s.get .esp - 4 = pointer p (x :: st).length ∧
      (s.get .esp - 4 = p ∨ s.get .esp - 4 = p + 4) ∧
      Stacked (s.memory.setWord (s.get .esp - 4) x) p (x :: st) := by
  have hesp := h.esp
  have hstacked := h.stacked
  rcases st with _ | ⟨y, _ | ⟨z, st⟩⟩
  · have hpoint : s.get .esp - 4 = p + 4 := by
      have hesp : s.get .esp = p + (4 + 4) := hesp
      rw [hesp, ← UInt32.add_assoc, UInt32.add_sub_cancel]
    rw [hpoint]
    exact ⟨hp', rfl, .inr rfl, Memory.wordAt_setWord ..⟩
  · have hpoint : s.get .esp - 4 = p := by
      have hesp : s.get .esp = p + 4 := hesp
      rw [hesp, UInt32.add_sub_cancel]
    rw [hpoint]
    refine ⟨hp, (UInt32.add_zero p).symm, .inl rfl, Memory.wordAt_setWord .., ?_⟩
    rw [Memory.wordAt_setWord_of_disjoint _ _ _ _ (disjoint_pair p).symm]
    exact hstacked
  · simp only [List.length_cons] at hroom
    omega

end memory

/-- What an instruction does to a view, it does to the machine. -/
theorem execute {S : Site} {v w : View} {i : Instruction UInt32} (h : Follows home p s v)
    (hp : home.hasWord p = true) (hp' : home.hasWord (p + 4) = true) (hcap : S.capacity = 8)
    (hcell : S.zone.cell = none) (hi : Plain i) (he : S.Exec v i w) :
    Follows home p (s.execute i) w := by
  obtain ⟨pc, r, f, d, st⟩ := v
  obtain rfl : s.pc = pc := h.pc
  obtain rfl : s.flags = f := h.flags
  cases he with
  | move c src dst hs hd =>
    have hg : s.get src = r.get src := h.get src hs
    simp only [Machine.execute, hg]
    split_ifs
    · exact h.put hd _ _ _
    · exact h.goto _
  | constant x dst hd => exact h.put hd _ _ _
  | alu op src dst hs hd =>
    have hg : s.get src = r.get src := h.get src hs
    have hg' : s.get dst = r.get dst := h.get dst hd
    simp only [Machine.execute, hg, hg']
    exact h.put hd _ _ _
  | jump c dest =>
    simp only [Machine.execute]
    split_ifs
    · exact h.goto _
    · exact h.goto _
  | push src hs hroom =>
    have hg : s.get src = r.get src := h.get src hs
    obtain ⟨hword, hpoint, hplace, hstacked⟩ := h.push hp hp' (r.get src) (by omega)
    have hword' : s.memory.hasWord (s.get .esp - 4) = true := by
      rw [Memory.hasWord_iff] at hword ⊢
      rw [h.size]
      exact hword
    have hsize : (s.memory.setWord (s.get .esp - 4) (r.get src)).size = home.size := by
      rw [Memory.size_setWord, h.size]
    simp only [Machine.execute, Machine.storeWord, hg, if_pos hword']
    have hnext := h.restack hsize (h.frame_setWord hplace _) hstacked (s.pc + 2)
    rw [← hpoint] at hnext
    exact hnext
  | @pop _ _ _ _ x st dst hd =>
    have hword := h.word?_top hp hp' rfl
    obtain ⟨hstacked, hpoint⟩ := h.stacked_tail rfl
    simp only [Machine.execute, Machine.loadWord, hword, hpoint]
    exact (h.restack h.size h.frame hstacked s.pc).put hd _ _ _
  | @loadTop _ _ _ _ x st dst hd =>
    have hword := h.word?_top hp hp' rfl
    have ha : s.address 0 (some .esp) = s.get .esp := UInt32.zero_add _
    simp only [Machine.execute, Machine.loadWord, ha, hword]
    exact h.put hd _ _ _
  | loadCell n base dst hb hd hc =>
    rw [hcell] at hc
    cases hc
  | loadHome n base dst hb hd hsize houtside =>
    exact absurd (Option.some.inj hi) hb
  | storeCell src n base hs hb hc =>
    rw [hcell] at hc
    cases hc

/-- **One step** of the machine is one instruction on the view. -/
theorem step {S : Site} {v w : View} {i : Instruction UInt32} (h : Follows home p s v)
    (hp : home.hasWord p = true) (hp' : home.hasWord (p + 4) = true) (hcap : S.capacity = 8)
    (hcell : S.zone.cell = none) (hi : Plain i) (hholds : home.HoldsAt v.pc i.encode)
    (hout : ∀ k < i.length, ¬ InPair p (v.pc.toNat + k)) (he : S.Exec v i w) :
    Follows home p s.step w := by
  have hholds' : s.memory.HoldsAt s.pc i.encode := by
    rw [h.pc]
    refine hholds.congr (Nat.le_of_eq h.size.symm) fun k hk => h.frame _ (hout k ?_)
    rwa [Instruction.length_encode] at hk
  rw [Machine.step_eq_execute h.running hholds']
  have counted : Follows home p { s with steps := s.steps + 1 } v := { h with }
  exact counted.execute hp hp' hcap hcell hi he

end Follows

/-! ### Whole runs -/

/-- The addresses of the first `k` instructions that a machine executes. -/
def path (s : Machine) (k : Nat) : List UInt32 :=
  (List.range k).map fun j => (Machine.step^[j] s).pc

theorem path_succ (s : Machine) (k : Nat) : path s (k + 1) = s.pc :: path s.step k := by
  unfold path
  rw [List.range_succ_eq_map, List.map_cons, List.map_map]
  rfl

/-- **A run over views is a run of the machine**, whose stack pointer stays between the operands and
the end of their words. -/
theorem Follows.run {m : Memory} {labels : LabelTable} {a p : UInt32} {n : Nat} {hn : n ≤ 2 ^ 31}
    {s : Machine} {v w : View} {trace : List UInt32}
    (hr : (Site.aside m labels a n hn).Runs trace v w) (h : Follows m p s v)
    (hp : m.hasWord p = true) (hp' : m.hasWord (p + 4) = true)
    (hout : ∀ k, a.toNat ≤ k → k < a.toNat + n → ¬ InPair p k) :
    Follows m p (Machine.step^[trace.length] s) w ∧ path s trace.length = trace ∧
      ∀ j ≤ trace.length, ∃ k ≤ 2, (Machine.step^[j] s).get .esp = pointer p k := by
  have bounded {s : Machine} {v : View} (h : Follows m p s v) :
      ∃ k ≤ 2, s.get .esp = pointer p k :=
    ⟨v.stack.length, h.stacked.length_le, h.esp⟩
  induction hr generalizing s with
  | refl v =>
    refine ⟨h, rfl, fun j hj => ?_⟩
    obtain rfl : j = 0 := Nat.le_zero.mp hj
    exact bounded h
  | @step v w _ i trace hi he _ ih =>
    have hnext : Follows m p s.step w := by
      refine h.step hp hp' Site.capacity_aside rfl hi.2.2.2 hi.1 (fun k hk => ?_) he
      have := hi.2.1
      have := hi.2.2.1
      exact hout _ (by omega) (by omega)
    obtain ⟨hend, hpath, hesp⟩ := ih hnext
    refine ⟨hend, ?_, fun j hj => ?_⟩
    · rw [List.length_cons, path_succ, hpath, h.pc]
    · cases j with
      | zero => exact bounded h
      | succ j => exact hesp j (Nat.le_of_succ_le_succ hj)

end RpnY86.Code
