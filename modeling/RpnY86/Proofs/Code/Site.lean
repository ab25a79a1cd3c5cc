import RpnY86.Assembly.Label
import RpnY86.Operation.Evaluation
import RpnY86.Proofs.Y86.Iterate
import RpnY86.Proofs.Y86.Words

/-! # Running generated code over an operand stack

Generated code uses memory in one way only: it keeps operands on the machine's stack and their
number in one cell. A `View` is a machine seen so: program counter, registers and flags, the word in
the cell, and the operands as a list. `Exec` says what an instruction does to a view; it has no rule
for an instruction that would leave the stack region, write elsewhere, or touch `%esp` other than by
pushing and popping.

A `Site` is where the code stands: its labels, the memory as it was loaded, the instructions by
address, and the `Zone` of memory that it may write. `Shows` ties a machine to a view at a site.

* `Shows.step`: what an instruction does to the view, a step does to the machine;
* `Shows.writes`: the word that the step stores, if any, is one of the zone;
* `Runs.shows`: hence a run over views, with its trace of addresses, is a run of the machine. -/

namespace RpnY86.Code

open Assembly (LabelTable)
open Y86 (AluOp Condition Flags Instruction Machine Memory Reg Registers)

/-! ### Sites -/

/-- The memory that code may write: the stack region from `floor` up to `top`, and the cell. -/
structure Zone where
  floor : Nat
  top : Nat
  cell : Option UInt32

namespace Zone

/-- The byte at position `n` may be written. -/
def Covers (z : Zone) (n : Nat) : Prop :=
  (z.floor ≤ n ∧ n < z.top) ∨ ∃ c, z.cell = some c ∧ c.toNat ≤ n ∧ n < c.toNat + 4

/-- The word at address `a` is the cell, or lies in the stack region. -/
def HasWord (z : Zone) (a : UInt32) : Prop :=
  z.cell = some a ∨ (z.floor ≤ a.toNat ∧ a.toNat + 4 ≤ z.top)

theorem HasWord.covers {z : Zone} {a : UInt32} (h : z.HasWord a) {n : Nat} (hn : a.toNat ≤ n)
    (hn' : n < a.toNat + 4) : z.Covers n := by
  rcases h with h | ⟨h1, h2⟩
  · exact .inr ⟨a, h, hn, hn'⟩
  · exact .inl ⟨by omega, by omega⟩

end Zone

/-- Code in memory. -/
structure Site where
  /-- The addresses of labels. -/
  labels : LabelTable
  /-- The memory before the code runs. -/
  home : Memory
  /-- The instruction that starts at an address. -/
  code : UInt32 → Instruction UInt32 → Prop
  zone : Zone
  floor_le_top : zone.floor ≤ zone.top
  top_le_size : zone.top ≤ home.size
  top_le_range : zone.top ≤ 2 ^ 32
  cell_le_size : ∀ c, zone.cell = some c → c.toNat + 4 ≤ home.size
  cell_outside : ∀ c, zone.cell = some c → c.toNat + 4 ≤ zone.floor ∨ zone.top ≤ c.toNat
  code_holds : ∀ a i, code a i → home.HoldsAt a i.encode
  code_outside : ∀ a i, code a i → ∀ k < i.length, ¬ zone.Covers (a.toNat + k)

/-- A machine seen as one that works on an operand stack. The register `%esp` of a view is not
looked at. -/
structure View where
  pc : UInt32
  registers : Registers
  flags : Flags
  depth : UInt32
  stack : OperandStack

namespace Site

variable {S : Site}

/-- The bytes that the stack region has. -/
def capacity (S : Site) : Nat := S.zone.top - S.zone.floor

/-- The address of the upper operand of a stack of height `n`. -/
def stackPointer (S : Site) (n : Nat) : Nat := S.zone.top - 4 * n

/-! ### Instructions on views -/

/-- What an instruction does to a view. -/
inductive Exec (S : Site) : View → Instruction UInt32 → View → Prop
  | move {pc r f d st} (c : Condition) (src dst : Reg) (hs : src ≠ .esp) (hd : dst ≠ .esp) :
    Exec S ⟨pc, r, f, d, st⟩ (.move c src dst)
      ⟨pc + 2, if c.holds f then r.set dst (r.get src) else r, f, d, st⟩
  | constant {pc r f d st} (x : UInt32) (dst : Reg) (hd : dst ≠ .esp) :
    Exec S ⟨pc, r, f, d, st⟩ (.constant x dst) ⟨pc + 6, r.set dst x, f, d, st⟩
  | alu {pc r f d st} (op : AluOp) (src dst : Reg) (hs : src ≠ .esp) (hd : dst ≠ .esp) :
    Exec S ⟨pc, r, f, d, st⟩ (.alu op src dst)
      ⟨pc + 2, r.set dst (op.result (r.get src) (r.get dst)), op.flags (r.get src) (r.get dst), d,
        st⟩
  | jump {pc r f d st} (c : Condition) (dest : UInt32) :
    Exec S ⟨pc, r, f, d, st⟩ (.jump c dest) ⟨if c.holds f then dest else pc + 5, r, f, d, st⟩
  | push {pc r f d st} (src : Reg) (hs : src ≠ .esp) (hroom : 4 * (st.length + 1) ≤ S.capacity) :
    Exec S ⟨pc, r, f, d, st⟩ (.push src) ⟨pc + 2, r, f, d, r.get src :: st⟩
  | pop {pc r f d x st} (dst : Reg) (hd : dst ≠ .esp) :
    Exec S ⟨pc, r, f, d, x :: st⟩ (.pop dst) ⟨pc + 2, r.set dst x, f, d, st⟩
  | loadTop {pc r f d x st} (dst : Reg) (hd : dst ≠ .esp) :
    Exec S ⟨pc, r, f, d, x :: st⟩ (.load 0 (some .esp) dst) ⟨pc + 6, r.set dst x, f, d, x :: st⟩
  | loadCell {pc r f d st} (n : UInt32) (base dst : Reg) (hb : base ≠ .esp) (hd : dst ≠ .esp)
    (hcell : S.zone.cell = some (n + r.get base)) :
    Exec S ⟨pc, r, f, d, st⟩ (.load n (some base) dst) ⟨pc + 6, r.set dst d, f, d, st⟩
  | loadHome {pc r f d st} (n : UInt32) (base dst : Reg) (hb : base ≠ .esp) (hd : dst ≠ .esp)
    (hsize : (n + r.get base).toNat + 4 ≤ S.home.size)
    (houtside : ∀ k < 4, ¬ S.zone.Covers ((n + r.get base).toNat + k)) :
    Exec S ⟨pc, r, f, d, st⟩ (.load n (some base) dst)
      ⟨pc + 6, r.set dst (S.home.wordAt (n + r.get base).toNat), f, d, st⟩
  | storeCell {pc r f d st} (src : Reg) (n : UInt32) (base : Reg) (hs : src ≠ .esp)
    (hb : base ≠ .esp) (hcell : S.zone.cell = some (n + r.get base)) :
    Exec S ⟨pc, r, f, d, st⟩ (.store src n (some base)) ⟨pc + 6, r, f, r.get src, st⟩

/-- A run over views, with the addresses of the executed instructions. -/
inductive Runs (S : Site) : List UInt32 → View → View → Prop
  | refl (v : View) : Runs S [] v v
  | step {v w x : View} {i : Instruction UInt32} {trace : List UInt32} (hi : S.code v.pc i)
    (he : S.Exec v i w) (hr : Runs S trace w x) : Runs S (v.pc :: trace) v x

theorem Runs.one {v w : View} {i : Instruction UInt32} (hi : S.code v.pc i) (he : S.Exec v i w) :
    S.Runs [v.pc] v w :=
  .step hi he (.refl w)

theorem Runs.trans {v w x : View} {t u : List UInt32} (h : S.Runs t v w) (h' : S.Runs u w x) :
    S.Runs (t ++ u) v x := by
  induction h with
  | refl v => exact h'
  | step hi he _ ih => exact .step hi he (ih h')

/-! ### Machines at a site -/

/-- The memory of a machine at a site: as loaded outside the zone, with the depth in the cell and
the operands on the stack. -/
structure Keeps (S : Site) (m : Memory) (depth : UInt32) (stack : OperandStack) : Prop where
  size : m.size = S.home.size
  frame : ∀ n, ¬ S.zone.Covers n → m.byteAt n = S.home.byteAt n
  cell : ∀ c, S.zone.cell = some c → m.wordAt c.toNat = depth
  words : m.wordsFrom (S.stackPointer stack.length) stack.length = stack

/-- A running machine at a site looks like a view. -/
structure Shows (S : Site) (s : Machine) (v : View) : Prop where
  running : s.status = .running
  pc : s.pc = v.pc
  flags : s.flags = v.flags
  get : ∀ r, r ≠ .esp → s.get r = v.registers.get r
  esp : s.get .esp = UInt32.ofNat (S.stackPointer v.stack.length)
  room : 4 * v.stack.length ≤ S.capacity
  keeps : S.Keeps s.memory v.depth v.stack

/-! ### Memory operations -/

theorem capacity_le_top (S : Site) : S.capacity ≤ S.zone.top := Nat.sub_le _ _

theorem stackPointer_succ {n : Nat} (h : 4 * (n + 1) ≤ S.capacity) :
    S.stackPointer (n + 1) + 4 = S.stackPointer n := by
  have := S.capacity_le_top
  unfold stackPointer
  omega

theorem toNat_stackPointer (S : Site) (n : Nat) :
    (UInt32.ofNat (S.stackPointer (n + 1))).toNat = S.stackPointer (n + 1) := by
  have := S.top_le_range
  rw [UInt32.toNat_ofNat', stackPointer]
  omega

theorem ofNat_stackPointer_sub {n : Nat} (h : 4 * (n + 1) ≤ S.capacity) :
    UInt32.ofNat (S.stackPointer n) - 4 = UInt32.ofNat (S.stackPointer (n + 1)) := by
  rw [← stackPointer_succ h, UInt32.ofNat_add]
  grind

theorem hasWord_stackPointer {n : Nat} (h : 4 * (n + 1) ≤ S.capacity) :
    S.zone.HasWord (UInt32.ofNat (S.stackPointer (n + 1))) := by
  have := S.floor_le_top
  refine .inr ?_
  rw [toNat_stackPointer]
  unfold capacity at h
  unfold stackPointer
  omega

theorem le_size_of_hasWord {a : UInt32} (h : S.zone.HasWord a) : a.toNat + 4 ≤ S.home.size := by
  have := S.top_le_size
  rcases h with h | h
  · exact S.cell_le_size a h
  · omega

namespace Keeps

variable {m : Memory} {d : UInt32} {st : OperandStack}

/-- Code is never overwritten. -/
theorem holds (h : S.Keeps m d st) {a : UInt32} {i : Instruction UInt32} (hi : S.code a i) :
    m.HoldsAt a i.encode := by
  refine (S.code_holds a i hi).congr (Nat.le_of_eq h.size.symm) fun k hk => h.frame _ ?_
  rw [Instruction.length_encode] at hk
  exact S.code_outside a i hi k hk

theorem hasWord (h : S.Keeps m d st) {a : UInt32} (ha : S.zone.HasWord a) :
    m.hasWord a = true := by
  rw [Memory.hasWord_iff, h.size]
  exact le_size_of_hasWord ha

theorem word?_cell (h : S.Keeps m d st) {c : UInt32} (hc : S.zone.cell = some c) :
    m.word? c = some d := by
  rw [Memory.word?, if_pos (h.hasWord (.inl hc)), h.cell c hc]

theorem word?_top {x : UInt32} (h : S.Keeps m d (x :: st))
    (hr : 4 * (st.length + 1) ≤ S.capacity) :
    m.word? (UInt32.ofNat (S.stackPointer (st.length + 1))) = some x := by
  rw [Memory.word?, if_pos (h.hasWord (hasWord_stackPointer hr)), toNat_stackPointer]
  exact congrArg some (List.cons.inj h.words).1

theorem word?_home (h : S.Keeps m d st) {a : UInt32} (hs : a.toNat + 4 ≤ S.home.size)
    (ho : ∀ k < 4, ¬ S.zone.Covers (a.toNat + k)) :
    m.word? a = some (S.home.wordAt a.toNat) := by
  have hw : m.hasWord a = true := by rw [Memory.hasWord_iff, h.size]; exact hs
  rw [Memory.word?, if_pos hw, Memory.wordAt, h.frame _ (ho 1 (by omega)),
    h.frame _ (ho 2 (by omega)), h.frame _ (ho 3 (by omega))]
  have h0 := h.frame _ (ho 0 (by omega))
  rw [Nat.add_zero] at h0
  rw [h0, Memory.wordAt]

theorem pop {x : UInt32} (h : S.Keeps m d (x :: st)) (hr : 4 * (st.length + 1) ≤ S.capacity) :
    S.Keeps m d st where
  size := h.size
  frame := h.frame
  cell := h.cell
  words := by rw [← stackPointer_succ hr]; exact (List.cons.inj h.words).2

/-- Writing a word of the zone keeps the memory outside. -/
theorem frame_setWord (h : S.Keeps m d st) {a : UInt32} (ha : S.zone.HasWord a) (x : UInt32)
    (n : Nat) (hn : ¬ S.zone.Covers n) : (m.setWord a x).byteAt n = S.home.byteAt n := by
  have ho : n < a.toNat ∨ a.toNat + 4 ≤ n := by
    by_contra hc
    exact hn (ha.covers (by omega) (by omega))
  rw [Memory.byteAt_setWord_of_ne _ _ _ ho, h.frame n hn]

theorem push (h : S.Keeps m d st) (hr : 4 * (st.length + 1) ≤ S.capacity) (x : UInt32) :
    S.Keeps (m.setWord (UInt32.ofNat (S.stackPointer (st.length + 1))) x) d (x :: st) where
  size := by rw [Memory.size_setWord, h.size]
  frame := h.frame_setWord (hasWord_stackPointer hr) x
  cell c hc := by
    have h1 := S.cell_outside c hc
    have h2 := S.floor_le_top
    have h3 : 4 * (st.length + 1) ≤ S.zone.top - S.zone.floor := hr
    rw [Memory.wordAt_setWord_of_disjoint, h.cell c hc]
    rw [toNat_stackPointer, stackPointer]
    omega
  words := by
    have hw := h.words
    rw [List.length_cons, Memory.wordsFrom, stackPointer_succ hr]
    rw [Memory.wordsFrom_setWord_of_disjoint, hw]
    · congr 1
      have := Memory.wordAt_setWord m (UInt32.ofNat (S.stackPointer (st.length + 1))) x
      rwa [toNat_stackPointer] at this
    · rw [toNat_stackPointer, stackPointer_succ hr]
      exact .inl (Nat.le_refl _)

theorem store (h : S.Keeps m d st) {c : UInt32} (hc : S.zone.cell = some c)
    (hr : 4 * st.length ≤ S.capacity) (x : UInt32) : S.Keeps (m.setWord c x) x st where
  size := by rw [Memory.size_setWord, h.size]
  frame := h.frame_setWord (.inl hc) x
  cell c' hc' := by
    obtain rfl : c = c' := Option.some.inj (hc.symm.trans hc')
    exact Memory.wordAt_setWord m c x
  words := by
    have h1 := S.cell_outside c hc
    have h2 := S.floor_le_top
    have h3 : 4 * st.length ≤ S.zone.top - S.zone.floor := hr
    rw [Memory.wordsFrom_setWord_of_disjoint, h.words]
    unfold stackPointer
    omega

end Keeps

/-! ### One step -/

namespace Shows

variable {s : Machine} {pc : UInt32} {r : Registers} {f : Flags} {d : UInt32} {st : OperandStack}

/-- The machine with a word in a register other than `%esp`, at another place and with other
flags. -/
theorem put (h : S.Shows s ⟨pc, r, f, d, st⟩) {dst : Reg} (hd : dst ≠ .esp) (x pc' : UInt32)
    (f' : Flags) :
    S.Shows { s with registers := s.registers.set dst x, pc := pc', flags := f' }
      ⟨pc', r.set dst x, f', d, st⟩ where
  running := h.running
  pc := rfl
  flags := rfl
  get q hq := by
    have := h.get q hq
    simp only [Machine.get, Registers.get_set] at this ⊢
    rw [this]
  esp := by
    have := h.esp
    simp only [Machine.get, Registers.get_set, if_neg (Ne.symm hd)] at this ⊢
    rw [this]
  room := h.room
  keeps := h.keeps

theorem goto (h : S.Shows s ⟨pc, r, f, d, st⟩) (pc' : UInt32) :
    S.Shows { s with pc := pc' } ⟨pc', r, f, d, st⟩ where
  running := h.running
  pc := rfl
  flags := h.flags
  get := h.get
  esp := h.esp
  room := h.room
  keeps := h.keeps

theorem restack (h : S.Shows s ⟨pc, r, f, d, st⟩) {m : Memory} {d' : UInt32} (st' : OperandStack)
    (hr : 4 * st'.length ≤ S.capacity) (hk : S.Keeps m d' st') (pc' : UInt32) :
    S.Shows { s with registers := s.registers.set .esp (UInt32.ofNat (S.stackPointer st'.length)),
                     memory := m, pc := pc' } ⟨pc', r, f, d', st'⟩ where
  running := h.running
  pc := rfl
  flags := h.flags
  get q hq := by
    have := h.get q hq
    simp only [Machine.get, Registers.get_set, if_neg hq] at this ⊢
    exact this
  esp := by simp only [Machine.get, Registers.get_set, if_true]
  room := hr
  keeps := hk

theorem address_eq (h : S.Shows s ⟨pc, r, f, d, st⟩) {base : Reg} (hb : base ≠ .esp)
    (n : UInt32) : s.address n (some base) = n + r.get base := by
  simp only [Machine.address, h.get base hb]

/-- What an instruction does to a view, it does to the machine. -/
theorem execute {v w : View} {i : Instruction UInt32} (h : S.Shows s v) (he : S.Exec v i w) :
    S.Shows (s.execute i) w := by
  obtain ⟨pc, r, f, d, st⟩ := v
  obtain rfl : s.pc = pc := h.pc
  obtain rfl : s.flags = f := h.flags
  cases he with
  | move c src dst hs hd =>
    have hg : s.get src = r.get src := h.get src hs
    simp only [Machine.execute, hg]
    split
    · exact h.put hd _ _ _
    · exact h.goto _
  | constant x dst hd => exact h.put hd _ _ _
  | alu op src dst hs hd =>
    have hg : s.get src = r.get src := h.get src hs
    have hg' : s.get dst = r.get dst := h.get dst hd
    simp only [Machine.execute, hg, hg']
    exact h.put hd _ _ _
  | jump c dest =>
    simp only [Machine.execute]
    split
    · exact h.goto _
    · exact h.goto _
  | push src hs hroom =>
    have hg : s.get src = r.get src := h.get src hs
    have he : s.get .esp - 4 = UInt32.ofNat (S.stackPointer (st.length + 1)) := by
      rw [h.esp, ofNat_stackPointer_sub hroom]
    have hw := h.keeps.hasWord (hasWord_stackPointer hroom)
    simp only [Machine.execute, Machine.storeWord, hg, he, if_pos hw]
    exact h.restack (r.get src :: st) hroom (h.keeps.push hroom _) _
  | @pop _ _ _ _ x st dst hd =>
    have hroom : 4 * (st.length + 1) ≤ S.capacity := h.room
    have he : s.get .esp = UInt32.ofNat (S.stackPointer (st.length + 1)) := h.esp
    have he' : s.get .esp + 4 = UInt32.ofNat (S.stackPointer st.length) := by
      rw [he, ← ofNat_stackPointer_sub hroom]
      grind
    have hw := h.keeps.word?_top hroom
    rw [← he] at hw
    simp only [Machine.execute, Machine.loadWord, hw, he']
    exact (h.restack st (by omega) (h.keeps.pop hroom) s.pc).put hd _ _ _
  | @loadTop _ _ _ _ x st dst hd =>
    have hroom : 4 * (st.length + 1) ≤ S.capacity := h.room
    have hw := h.keeps.word?_top hroom
    have ha : s.address 0 (some .esp) = UInt32.ofNat (S.stackPointer (st.length + 1)) := by
      simp only [Machine.address, h.esp, UInt32.zero_add]
      rfl
    simp only [Machine.execute, Machine.loadWord, ha, hw]
    exact h.put hd _ _ _
  | loadCell n base dst hb hd hcell =>
    simp only [Machine.execute, Machine.loadWord, h.address_eq hb, h.keeps.word?_cell hcell]
    exact h.put hd _ _ _
  | loadHome n base dst hb hd hsize houtside =>
    simp only [Machine.execute, Machine.loadWord, h.address_eq hb,
      h.keeps.word?_home hsize houtside]
    exact h.put hd _ _ _
  | storeCell src n base hs hb hcell =>
    have hg : s.get src = r.get src := h.get src hs
    simp only [Machine.execute, Machine.storeWord, h.address_eq hb, hg,
      if_pos (h.keeps.hasWord (.inl hcell))]
    exact
      { running := h.running
        pc := rfl
        flags := rfl
        get := h.get
        esp := h.esp
        room := h.room
        keeps := h.keeps.store hcell h.room _ }

/-- The instruction at the place of the view stands in the machine's memory. -/
theorem holds {v : View} {i : Instruction UInt32} (h : S.Shows s v) (hi : S.code v.pc i) :
    s.memory.HoldsAt s.pc i.encode := by
  rw [h.pc]
  exact h.keeps.holds hi

theorem counted {v : View} (h : S.Shows s v) (n : Nat) : S.Shows { s with steps := n } v where
  running := h.running
  pc := h.pc
  flags := h.flags
  get := h.get
  esp := h.esp
  room := h.room
  keeps := h.keeps

/-- **One step** of the machine is one instruction on the view. -/
theorem step {v w : View} {i : Instruction UInt32} (h : S.Shows s v) (hi : S.code v.pc i)
    (he : S.Exec v i w) : S.Shows s.step w := by
  rw [Machine.step_eq_execute h.running (h.holds hi)]
  exact (h.counted _).execute he

/-- **Writes stay in the zone.** -/
theorem writes {v w : View} {i : Instruction UInt32} (h : S.Shows s v) (hi : S.code v.pc i)
    (he : S.Exec v i w) {a : UInt32} (ha : s.writes? = some a) : S.zone.HasWord a := by
  rw [Machine.writes?, Machine.current?_of_holds h.running (h.holds hi), Option.bind_some] at ha
  cases he with
  | push src hs hroom =>
    obtain rfl := Option.some.inj ha
    rw [h.esp, ofNat_stackPointer_sub hroom]
    exact hasWord_stackPointer hroom
  | storeCell src n base hs hb hcell =>
    obtain rfl := Option.some.inj ha
    rw [h.address_eq hb]
    exact .inl hcell
  | _ => cases ha

end Shows

/-! ### Whole runs -/

/-- **A run over views is a run of the machine.** -/
theorem Runs.shows {s : Machine} {v w : View} {trace : List UInt32} (hr : S.Runs trace v w)
    (h : S.Shows s v) : S.Shows (Machine.step^[trace.length] s) w := by
  induction hr generalizing s with
  | refl v => exact h
  | step hi he _ ih =>
    rw [List.length_cons, Function.iterate_succ_apply]
    exact ih (h.step hi he)

/-- Before each of its steps, the machine of a run is about to execute an instruction that its view
allows. -/
theorem Runs.shows_at {s : Machine} {v w : View} {trace : List UInt32} (hr : S.Runs trace v w)
    (h : S.Shows s v) {k : Nat} (hk : k < trace.length) :
    ∃ u x i, S.Shows (Machine.step^[k] s) u ∧ S.code u.pc i ∧ S.Exec u i x := by
  induction hr generalizing s k with
  | refl v => exact absurd hk (Nat.not_lt_zero k)
  | @step v w _ i _ hi he _ ih =>
    cases k with
    | zero => exact ⟨v, w, i, h, hi, he⟩
    | succ k => exact ih (h.step hi he) (Nat.lt_of_succ_lt_succ hk)

end Site

end RpnY86.Code
