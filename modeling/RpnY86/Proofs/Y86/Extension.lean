import RpnY86.Proofs.Y86.Iterate
import RpnY86.Proofs.Y86.Words

/-! # A machine in a larger memory

An instruction is read byte by byte and word by word, with tests of codes in between. So whatever
relates two ways of reading the bytes and words relates the two ways of reading the instruction
(`Reading.fetch`). Three things follow from that one statement: an instruction that runs out of
memory names an address beyond it (`lt_of_fetch_error`), two memories with the same bytes hold the
same instructions, and a larger memory that begins with the bytes of a smaller one holds every
instruction of it (`Memory.Extends.fetch`).

`Machine.Extends s t` says that `t` is `s` in a larger memory. A step keeps this
(`Extends.step`), unless the smaller machine stops at the end of its memory. -/

namespace RpnY86.Y86

/-! ### Reading an instruction -/

/-- A relation between results of reading in two memories that holds of bytes and words, of every
test of a code, and of whatever is put together from these. -/
structure Reading (m m' : Memory)
    (R : (α : Type) → Except Obstacle α → Except Obstacle α → Prop) : Prop where
  ok : ∀ {α : Type} (a : α), R α (.ok a) (.ok a)
  refused : ∀ α : Type, R α (.error .instruction) (.error .instruction)
  bind : ∀ {α β : Type} {x y : Except Obstacle α} {f g : α → Except Obstacle β},
    R α x y → (∀ a, R β (f a) (g a)) → R β (x >>= f) (y >>= g)
  byte : ∀ a, R UInt8 (m.fetchByte a) (m'.fetchByte a)
  word : ∀ a, R UInt32 (m.fetchWord a) (m'.fetchWord a)

namespace Reading

variable {m m' : Memory} {R : (α : Type) → Except Obstacle α → Except Obstacle α → Prop}

theorem required (h : Reading m m' R) {α : Type} (o : Option α) :
    R α (required o) (required o) := by
  cases o with
  | some a => exact h.ok a
  | none => exact h.refused α

theorem check (h : Reading m m' R) (ok : Bool) : R Unit (check ok) (check ok) := by
  cases ok with
  | true => exact h.ok ()
  | false => exact h.refused Unit

theorem fetchBase (h : Reading m m' R) (code : UInt8) :
    R (Option Reg) (fetchBase code) (fetchBase code) := by
  unfold Y86.fetchBase
  by_cases hn : code = noRegister
  · rw [if_pos hn]
    exact h.ok none
  · rw [if_neg hn]
    cases Reg.ofCode? code with
    | some r => exact h.ok (some r)
    | none => exact h.refused (Option Reg)

/-- **A relation that the parts of an instruction keep** is kept by the instruction. -/
theorem fetch (h : Reading m m' R) (pc : UInt32) (first : UInt8) :
    R (Instruction UInt32) (m.fetch pc first) (m'.fetch pc first) := by
  have pair {α : Type} {f g : UInt8 → Except Obstacle α} (hfg : ∀ b, R α (f b) (g b)) :
      R α (m.fetchByte (pc + 1) >>= f) (m'.fetchByte (pc + 1) >>= g) := h.bind (h.byte _) hfg
  have alone {α : Type} (ok : Bool) (i : α) :
      R α (Y86.check ok >>= fun _ => .ok i) (Y86.check ok >>= fun _ => .ok i) :=
    h.bind (h.check ok) fun _ => h.ok i
  have branch {α : Type} {c : Prop} [Decidable c] {x y x' y' : Except Obstacle α} (hx : R α x y)
      (hx' : R α x' y') : R α (if c then x else x') (if c then y else y') := by
    by_cases hc : c
    · rwa [if_pos hc, if_pos hc]
    · rwa [if_neg hc, if_neg hc]
  unfold Memory.fetch
  extract_lets code function
  -- One branch for each code, each with its parts in the order in which they are read.
  refine branch (alone _ _) ?_
  refine branch (alone _ _) ?_
  refine branch (pair fun _ => h.bind (h.required _) fun _ => h.bind (h.required _) fun _ =>
    h.bind (h.required _) fun _ => h.ok _) ?_
  refine branch (pair fun _ => h.bind (h.check _) fun _ => h.bind (h.required _) fun _ =>
    h.bind (h.word _) fun _ => h.ok _) ?_
  refine branch (pair fun _ => h.bind (h.check _) fun _ => h.bind (h.required _) fun _ =>
    h.bind (h.word _) fun _ => h.bind (h.fetchBase _) fun _ => h.ok _) ?_
  refine branch (pair fun _ => h.bind (h.check _) fun _ => h.bind (h.required _) fun _ =>
    h.bind (h.word _) fun _ => h.bind (h.fetchBase _) fun _ => h.ok _) ?_
  refine branch (pair fun _ => h.bind (h.required _) fun _ => h.bind (h.required _) fun _ =>
    h.bind (h.required _) fun _ => h.ok _) ?_
  refine branch (h.bind (h.required _) fun _ => h.bind (h.word _) fun _ => h.ok _) ?_
  refine branch (h.bind (h.check _) fun _ => h.bind (h.word _) fun _ => h.ok _) ?_
  refine branch (alone _ _) ?_
  refine branch (pair fun _ => h.bind (h.check _) fun _ => h.bind (h.required _) fun _ =>
    alone _ _) ?_
  refine branch (pair fun _ => h.bind (h.check _) fun _ => h.bind (h.required _) fun _ =>
    alone _ _) ?_
  exact h.refused _

end Reading

namespace Memory

/-- **An instruction that runs out of memory** names an address at which no word lies. -/
theorem lt_of_fetch_error {m : Memory} {pc a : UInt32} {first : UInt8}
    (h : m.fetch pc first = .error (.address a)) : m.size < a.toNat + 4 := by
  have reading : Reading m m fun α x _ => ∀ a, x = .error (.address a) → m.size < a.toNat + 4 :=
    { ok := fun _ _ hx => nomatch hx
      refused := fun _ _ hx => nomatch hx
      bind := by
        intro α β x y f g hx hf a hbind
        cases x with
        | error o => exact hx a (by cases hbind; rfl)
        | ok v => exact hf v a hbind
      byte := by
        intro b a hb
        unfold fetchByte byte? at hb
        split_ifs at hb with hlt
        cases hb
        omega
      word := by
        intro b a hb
        unfold fetchWord word? at hb
        split_ifs at hb with hword
        cases hb
        rw [hasWord_iff] at hword
        omega }
  exact reading.fetch pc first a h

/-! ### Larger memories -/

/-- A memory that is at least as large as `m` and begins with the bytes of `m`. -/
structure Extends (m m' : Memory) : Prop where
  size_le : m.size ≤ m'.size
  byteAt : ∀ k < m.size, m'.byteAt k = m.byteAt k

namespace Extends

variable {m m' : Memory}

theorem byte? (h : m.Extends m') {a : UInt32} (ha : a.toNat < m.size) : m'.byte? a = m.byte? a := by
  have := h.size_le
  rw [Memory.byte?, Memory.byte?, if_pos ha, if_pos (by omega), h.byteAt _ ha]

theorem byte?_of_size_eq (h : m.Extends m') (hs : m.size = m'.size) (a : UInt32) :
    m'.byte? a = m.byte? a := by
  by_cases ha : a.toNat < m.size
  · exact h.byte? ha
  · rw [Memory.byte?, Memory.byte?, if_neg ha, if_neg (by omega)]

theorem hasWord (h : m.Extends m') {a : UInt32} (ha : m.hasWord a = true) :
    m'.hasWord a = true := by
  rw [hasWord_iff] at ha ⊢
  have := h.size_le
  omega

theorem word? (h : m.Extends m') {a : UInt32} (ha : m.hasWord a = true) :
    m'.word? a = m.word? a := by
  have hword := (hasWord_iff m a).mp ha
  rw [Memory.word?, Memory.word?, if_pos ha, if_pos (h.hasWord ha), wordAt, wordAt,
    h.byteAt _ (by omega), h.byteAt _ (by omega), h.byteAt _ (by omega), h.byteAt _ (by omega)]

theorem hasWord_of_size_eq (hs : m.size = m'.size) (a : UInt32) : m'.hasWord a = m.hasWord a := by
  rw [Memory.hasWord, Memory.hasWord, hs]

theorem word?_of_size_eq (h : m.Extends m') (hs : m.size = m'.size) (a : UInt32) :
    m'.word? a = m.word? a := by
  by_cases ha : m.hasWord a = true
  · exact h.word? ha
  · rw [Memory.word?, Memory.word?, hasWord_of_size_eq hs, if_neg ha, if_neg ha]

theorem setWord (h : m.Extends m') (a v : UInt32) : (m.setWord a v).Extends (m'.setWord a v) where
  size_le := by rw [size_setWord, size_setWord]; exact h.size_le
  byteAt k hk := by
    rw [size_setWord] at hk
    rw [byteAt_setWord, byteAt_setWord, h.byteAt k hk]

theorem overlay {image : List UInt8} (h : m.Extends m') :
    (m.overlay image).Extends (m'.overlay image) where
  size_le := h.size_le
  byteAt k hk := by rw [byteAt_overlay, byteAt_overlay, h.byteAt k hk]

/-- **An instruction in a larger memory** is the one in the smaller memory, unless that one runs
out of memory. -/
theorem fetch (h : m.Extends m') (pc : UInt32) (first : UInt8) :
    m'.fetch pc first = m.fetch pc first ∨
      m.size < m'.size ∧ ∃ a, m.fetch pc first = .error (.address a) := by
  have reading : Reading m m' fun _ x y =>
      y = x ∨ m.size < m'.size ∧ ∃ a, x = .error (.address a) :=
    { ok := fun _ => .inl rfl
      refused := fun _ => .inl rfl
      bind := by
        intro α β x y f g hxy hfg
        rcases hxy with rfl | ⟨hlt, a, rfl⟩
        · cases y with
          | error o => exact .inl rfl
          | ok v => exact hfg v
        · exact .inr ⟨hlt, a, rfl⟩
      byte := by
        intro a
        by_cases ha : a.toNat < m.size
        · exact .inl (by rw [fetchByte, fetchByte, h.byte? ha])
        · rcases Nat.lt_or_eq_of_le h.size_le with hlt | heq
          · exact .inr ⟨hlt, a, by rw [fetchByte, Memory.byte?, if_neg ha]⟩
          · exact .inl (by rw [fetchByte, fetchByte, h.byte?_of_size_eq heq])
      word := by
        intro a
        by_cases ha : m.hasWord a = true
        · exact .inl (by rw [fetchWord, fetchWord, h.word? ha])
        · rcases Nat.lt_or_eq_of_le h.size_le with hlt | heq
          · exact .inr ⟨hlt, a, by rw [fetchWord, Memory.word?, if_neg ha]⟩
          · exact .inl (by rw [fetchWord, fetchWord, h.word?_of_size_eq heq]) }
  exact reading.fetch pc first

end Extends

end Memory

/-! ### Machines in larger memories -/

namespace Machine

/-- `t` is `s` in a larger memory. Counted steps and faults are left out: they do not decide how a
machine goes on. -/
structure Extends (s t : Machine) : Prop where
  registers : t.registers = s.registers
  pc : t.pc = s.pc
  flags : t.flags = s.flags
  status : t.status = s.status
  memory : s.memory.Extends t.memory

namespace Extends

variable {s t : Machine}

theorem get (h : Extends s t) (r : Reg) : t.get r = s.get r := by
  rw [Machine.get, Machine.get, h.registers]

theorem address (h : Extends s t) (d : UInt32) (base : Option Reg) :
    t.address d base = s.address d base := by
  cases base with
  | none => rfl
  | some r => rw [Machine.address, Machine.address, h.get]

theorem set (h : Extends s t) (r : Reg) (v : UInt32) : Extends (s.set r v) (t.set r v) :=
  { h with registers := by rw [Machine.set, Machine.set, h.registers] }

theorem jump (h : Extends s t) (a : UInt32) : Extends { s with pc := a } { t with pc := a } :=
  { h with pc := rfl }

theorem advance (h : Extends s t) (n : UInt32) : Extends (s.advance n) (t.advance n) :=
  { h with pc := by rw [Machine.advance, Machine.advance, h.pc] }

theorem stop (h : Extends s t) (o : Obstacle) : Extends (s.stop o) (t.stop o) :=
  { h with status := by cases o <;> rfl }

theorem storeWord (h : Extends s t) (a v : UInt32) {next : Machine → Machine}
    (hnext : ∀ {s t}, Extends s t → Extends (next s) (next t))
    (hok : (s.storeWord a v next).status ≠ .badAddress ∨ s.memory.size = t.memory.size) :
    Extends (s.storeWord a v next) (t.storeWord a v next) := by
  unfold Machine.storeWord at hok ⊢
  by_cases hword : s.memory.hasWord a = true
  · rw [if_pos hword, if_pos (h.memory.hasWord hword)]
    exact hnext ⟨h.registers, h.pc, h.flags, h.status, h.memory.setWord a v⟩
  · rw [if_neg hword] at hok ⊢
    rcases hok with hok | hsize
    · exact absurd rfl hok
    · rw [Memory.Extends.hasWord_of_size_eq hsize, if_neg hword]
      exact h.stop _

theorem loadWord (h : Extends s t) (a : UInt32) {next : Machine → UInt32 → Machine}
    (hnext : ∀ v, Extends (next s v) (next t v))
    (hok : (s.loadWord a next).status ≠ .badAddress ∨ s.memory.size = t.memory.size) :
    Extends (s.loadWord a next) (t.loadWord a next) := by
  unfold Machine.loadWord at hok ⊢
  cases hword : s.memory.word? a with
  | some v =>
    have ha : s.memory.hasWord a = true := by rw [← Memory.isSome_word?, hword]; rfl
    rw [h.memory.word? ha, hword]
    exact hnext v
  | none =>
    rw [hword] at hok
    rcases hok with hok | hsize
    · exact absurd rfl hok
    · rw [h.memory.word?_of_size_eq hsize, hword]
      exact h.stop _

theorem execute (h : Extends s t) (i : Instruction UInt32)
    (hok : (s.execute i).status ≠ .badAddress ∨ s.memory.size = t.memory.size) :
    Extends (s.execute i) (t.execute i) := by
  cases i with
  | halt => exact { h with status := rfl }
  | nop => exact h.advance 1
  | move c src dst =>
    simp only [Machine.execute, h.flags, h.get]
    split_ifs
    · exact (h.set _ _).advance 2
    · exact h.advance 2
  | constant v dst => exact (h.set dst v).advance 6
  | store src d base =>
    simp only [Machine.execute, h.get, h.address] at hok ⊢
    exact h.storeWord _ _ (·.advance 6) hok
  | load d base dst =>
    simp only [Machine.execute, h.address] at hok ⊢
    exact h.loadWord _ (fun v => (h.set dst v).advance 6) hok
  | alu op src dst =>
    simp only [Machine.execute, h.get, h.registers]
    refine Extends.advance ?_ 2
    exact ⟨rfl, h.pc, rfl, h.status, h.memory⟩
  | jump c dest =>
    have hc : c.holds t.flags = c.holds s.flags := by rw [h.flags]
    simp only [Machine.execute, hc]
    split_ifs
    · exact h.jump dest
    · exact h.advance 5
  | call dest =>
    simp only [Machine.execute, h.get, h.pc] at hok ⊢
    exact h.storeWord _ _ (fun h => (h.set _ _).jump dest) hok
  | ret =>
    simp only [Machine.execute, h.get] at hok ⊢
    exact h.loadWord _ (fun v => (h.set _ _).jump v) hok
  | push src =>
    simp only [Machine.execute, h.get] at hok ⊢
    exact h.storeWord _ _ (fun h => (h.set _ _).advance 2) hok
  | pop dst =>
    simp only [Machine.execute, h.get] at hok ⊢
    exact h.loadWord _ (fun v => ((h.set _ _).set dst v).advance 2) hok

/-- **A step in a larger memory** is the same step and counts the same, unless it stops at the end
of the smaller memory. -/
theorem step (h : Extends s t)
    (hok : s.step.status ≠ .badAddress ∨ s.memory.size = t.memory.size) :
    Extends s.step t.step ∧ t.step.steps + s.steps = s.step.steps + t.steps := by
  by_cases hs : s.status = .running
  · unfold Machine.step at hok ⊢
    rw [if_pos hs] at hok ⊢
    rw [if_pos (h.status.trans hs)]
    cases hb : s.memory.byte? s.pc with
    | none =>
      rw [hb] at hok
      rcases hok with hok | hsize
      · exact absurd rfl hok
      · have hb' : t.memory.byte? t.pc = none := by
          rw [h.pc, h.memory.byte?_of_size_eq hsize, hb]
        rw [hb']
        dsimp only
        rw [h.pc]
        exact ⟨h.stop _, Nat.add_comm _ _⟩
    | some first =>
      have hpc : s.pc.toNat < s.memory.size := by
        by_contra hge
        rw [Memory.byte?, if_neg hge] at hb
        cases hb
      have hb' : t.memory.byte? t.pc = some first := by rw [h.pc, h.memory.byte? hpc, hb]
      rw [hb']
      rw [hb] at hok
      have counted : Extends { s with steps := s.steps + 1 } { t with steps := t.steps + 1 } :=
        { h with }
      dsimp only at hok ⊢
      rcases h.memory.fetch s.pc first with hsame | ⟨hlt, a, hf⟩
      · have hsame' : t.memory.fetch t.pc first = s.memory.fetch s.pc first := by rw [h.pc, hsame]
        rw [hsame']
        cases hf : s.memory.fetch s.pc first with
        | error o => exact ⟨counted.stop o, by simp only [Machine.stop]; omega⟩
        | ok i =>
          rw [hf] at hok
          refine ⟨counted.execute i hok, ?_⟩
          simp only [steps_execute]
          omega
      · rw [hf] at hok
        rcases hok with hok | hsize
        · exact absurd rfl hok
        · omega
  · rw [step_of_stopped hs, step_of_stopped (by rwa [h.status])]
    exact ⟨h, Nat.add_comm _ _⟩

end Extends

theorem memory_size_step (s : Machine) : s.step.memory.size = s.memory.size := by
  rcases s.step_memory with h | ⟨a, v, -, h⟩
  · rw [h]
  · rw [h, Memory.size_setWord]

theorem memory_size_iterate_step (s : Machine) (n : ℕ) :
    (Machine.step^[n] s).memory.size = s.memory.size := by
  induction n with
  | zero => rfl
  | succ n ih => rw [Function.iterate_succ_apply', memory_size_step, ih]

theorem Extends.iterate_step {s t : Machine} (h : Extends s t) (n : ℕ)
    (hok : (∀ k ≤ n, (Machine.step^[k] s).status ≠ .badAddress) ∨ s.memory.size = t.memory.size) :
    Extends (Machine.step^[n] s) (Machine.step^[n] t) ∧
      (Machine.step^[n] t).steps + s.steps = (Machine.step^[n] s).steps + t.steps := by
  induction n with
  | zero => exact ⟨h, Nat.add_comm _ _⟩
  | succ n ih =>
    obtain ⟨hn, hsteps⟩ := ih (hok.imp_left fun hk k hkn => hk k (by omega))
    have hok' : (Machine.step^[n] s).step.status ≠ .badAddress ∨
        (Machine.step^[n] s).memory.size = (Machine.step^[n] t).memory.size := by
      rcases hok with hk | hsize
      · have hlast := hk (n + 1) le_rfl
        rw [Function.iterate_succ_apply'] at hlast
        exact .inl hlast
      · exact .inr (by rw [memory_size_iterate_step, memory_size_iterate_step, hsize])
    obtain ⟨hstep, hcount⟩ := hn.step hok'
    rw [Function.iterate_succ_apply', Function.iterate_succ_apply']
    exact ⟨hstep, by omega⟩

end Machine

end RpnY86.Y86
