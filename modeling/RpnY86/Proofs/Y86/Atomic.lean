import RpnY86.Proofs.Results
import RpnY86.Proofs.Y86.Exact
import RpnY86.Proofs.Y86.Iterate

/-! # What a step can change

A step either stops at an obstacle and leaves registers, program counter, flags and memory as they
were (`Untouched`), or it executes an instruction and changes only what that instruction names
(`Confined`). `step_cases` says how a step comes about, `execute_cases` what an instruction does;
the two together are `step_confined`.

The instruction is the one whose bytes stand at the program counter: reading accepts nothing but
encodings (`Memory.holdsAt_of_fetch`), so a malformed pattern of bytes is never executed as another
instruction. -/

namespace RpnY86.Y86

/-! ### Bytes that are read -/

theorem packNibbles_nibbles (b : UInt8) : packNibbles (highNibble b) (lowNibble b) = b := by
  have hb := b.toNat_lt
  have hhigh := toNat_highNibble b
  apply UInt8.toNat_inj.1
  rw [toNat_packNibbles (by omega), hhigh, toNat_lowNibble]
  omega

theorem required_eq_ok {α : Type} {o : Option α} {a : α} : required o = .ok a ↔ o = some a := by
  cases o <;> simp [required]

theorem check_eq_ok {b : Bool} {u : Unit} : check b = .ok u ↔ b = true := by
  cases b <;> simp [check]

theorem eq_of_check {b c : UInt8} {u : Unit} (h : check (b == c) = .ok u) : c = b :=
  (beq_iff_eq.1 (check_eq_ok.1 h)).symm

theorem Reg.code_of_ofCode? {c : UInt8} {r : Reg} (h : ofCode? c = some r) : r.code = c := by
  unfold ofCode? at h
  split at h <;> cases h <;> rfl

theorem Reg.code_of_required {c : UInt8} {r : Reg} (h : required (ofCode? c) = .ok r) :
    r.code = c :=
  code_of_ofCode? (required_eq_ok.1 h)

theorem Condition.code_of_required {code : UInt8} {c : Condition}
    (h : required (ofCode? code) = .ok c) : c.code = code := by
  rw [required_eq_ok] at h
  unfold ofCode? at h
  split at h <;> cases h <;> rfl

theorem AluOp.code_of_required {c : UInt8} {op : AluOp} (h : required (ofCode? c) = .ok op) :
    op.code = c := by
  rw [required_eq_ok] at h
  unfold ofCode? at h
  split at h <;> cases h <;> rfl

theorem baseCode_of_fetchBase {c : UInt8} {base : Option Reg} (h : fetchBase c = .ok base) :
    baseCode base = c := by
  unfold fetchBase at h
  split at h
  · rename_i hc
    obtain rfl := Except.ok.inj h
    exact hc.symm
  · cases hr : Reg.ofCode? c with
    | none =>
      rw [hr] at h
      cases h
    | some r =>
      rw [hr] at h
      obtain rfl := Except.ok.inj h
      exact Reg.code_of_ofCode? hr

theorem wordBytes_wordOfBytes (b₀ b₁ b₂ b₃ : UInt8) :
    wordBytes (wordOfBytes b₀ b₁ b₂ b₃) = [b₀, b₁, b₂, b₃] := by
  have h₀ := b₀.toNat_lt
  have h₁ := b₁.toNat_lt
  have h₂ := b₂.toNat_lt
  have h₃ := b₃.toNat_lt
  have hn := toNat_wordOfBytes b₀ b₁ b₂ b₃
  simp only [wordBytes, List.cons.injEq, and_true, ← UInt8.toNat_inj, UInt32.toNat_toUInt8,
    UInt32.toNat_shiftRight, hn, Nat.shiftRight_eq_div_pow]
  refine ⟨?_, ?_, ?_, ?_⟩ <;> simp <;> omega

namespace Memory

variable {m : Memory} {a pc v : UInt32} {b c first : UInt8} {bs : List UInt8}
  {i : Instruction UInt32}

theorem fetchByte_eq_ok : m.fetchByte a = .ok b ↔ m.byte? a = some b := by
  unfold fetchByte
  cases m.byte? a <;> simp

theorem byte?_eq_some : m.byte? a = some b ↔ a.toNat < m.size ∧ m.byteAt a.toNat = b := by
  unfold byte?
  split_ifs with h
  · simp [h]
  · simp [h]

theorem fetchWord_eq_ok : m.fetchWord a = .ok v ↔ a.toNat + 4 ≤ m.size ∧ m.wordAt a.toNat = v := by
  rw [← hasWord_iff]
  unfold fetchWord word?
  split_ifs with h
  · simp [h]
  · simp [h]

theorem holdsAt_one (hb : m.byte? a = some b) : m.HoldsAt a [b] := by
  obtain ⟨hsize, hbyte⟩ := byte?_eq_some.1 hb
  have ha := a.toNat_lt
  refine ⟨?_, ?_, fun k hk => ?_⟩
  · rw [List.length_singleton]; omega
  · rw [List.length_singleton]; omega
  · obtain rfl : k = 0 := by rw [List.length_singleton] at hk; omega
    exact hbyte

theorem holdsAt_two (hb : m.byte? a = some b) (hc : m.fetchByte (a + 1) = .ok c)
    (hr : a.toNat + 2 ≤ 2 ^ 32) : m.HoldsAt a [b, c] := by
  obtain ⟨-, hbyte⟩ := byte?_eq_some.1 hb
  obtain ⟨hsize, hbyte'⟩ := byte?_eq_some.1 (fetchByte_eq_ok.1 hc)
  have ha : (a + 1).toNat = a.toNat + 1 :=
    (UInt32.toNat_add a 1).trans (Nat.mod_eq_of_lt (show a.toNat + 1 < 2 ^ 32 by omega))
  rw [ha] at hsize hbyte'
  refine ⟨hsize, hr, fun k hk => ?_⟩
  rw [List.length_cons, List.length_singleton] at hk
  obtain rfl | rfl : k = 0 ∨ k = 1 := by omega
  · exact hbyte
  · exact hbyte'

theorem HoldsAt.append_word (h : m.HoldsAt a bs)
    (hv : m.fetchWord (a + UInt32.ofNat bs.length) = .ok v)
    (hr : a.toNat + (bs.length + 4) ≤ 2 ^ 32) : m.HoldsAt a (bs ++ wordBytes v) := by
  obtain ⟨hsize, hword⟩ := fetchWord_eq_ok.1 hv
  have ha : (a + UInt32.ofNat bs.length).toNat = a.toNat + bs.length := by
    rw [UInt32.toNat_add, UInt32.toNat_ofNat']
    omega
  rw [ha] at hsize hword
  have hbytes : wordBytes v = [m.byteAt (a.toNat + bs.length), m.byteAt (a.toNat + bs.length + 1),
      m.byteAt (a.toNat + bs.length + 2), m.byteAt (a.toNat + bs.length + 3)] := by
    rw [← hword, wordAt, wordBytes_wordOfBytes]
  have hlength : (bs ++ wordBytes v).length = bs.length + 4 := by simp [wordBytes]
  refine ⟨by omega, by omega, fun k hk => ?_⟩
  rw [List.getElem_append]
  split_ifs with hlt
  · exact h.byteAt k hlt
  · obtain ⟨j, rfl⟩ := Nat.exists_eq_add_of_le (Nat.le_of_not_lt hlt)
    have hj : j < 4 := by omega
    simp only [Nat.add_sub_cancel_left, hbytes, ← Nat.add_assoc]
    obtain rfl | rfl | rfl | rfl : j = 0 ∨ j = 1 ∨ j = 2 ∨ j = 3 := by omega
    · rfl
    · rfl
    · rfl
    · rfl

theorem holdsAt_opcode {code function : UInt8} (hb : m.byte? a = some b)
    (hcode : highNibble b = code) (hfunction : function = lowNibble b) :
    m.HoldsAt a [packNibbles code function] := by
  rw [← hcode, hfunction, packNibbles_nibbles]
  exact holdsAt_one hb

theorem holdsAt_pair {code function high low : UInt8} (hb : m.byte? a = some b)
    (hcode : highNibble b = code) (hfunction : function = lowNibble b)
    (hc : m.fetchByte (a + 1) = .ok c) (hhigh : high = highNibble c) (hlow : low = lowNibble c)
    (hr : a.toNat + 2 ≤ 2 ^ 32) :
    m.HoldsAt a [packNibbles code function, packNibbles high low] := by
  rw [← hcode, hfunction, packNibbles_nibbles, hhigh, hlow, packNibbles_nibbles]
  exact holdsAt_two hb hc hr

theorem ok_of_ite {P : Prop} [Decidable P] {x y : Except Obstacle (Instruction UInt32)}
    (h : (if P then x else y) = .ok i) : (P ∧ x = .ok i) ∨ y = .ok i := by
  by_cases hP : P
  · rw [if_pos hP] at h
    exact .inl ⟨hP, h⟩
  · rw [if_neg hP] at h
    exact .inr h

/-- **Reading accepts encodings only.** An instruction that is read stands there byte by byte,
unless its bytes go on behind the last address. -/
theorem holdsAt_of_fetch (hb : m.byte? pc = some first) (h : m.fetch pc first = .ok i)
    (hr : pc.toNat + i.length ≤ 2 ^ 32) : m.HoldsAt pc i.encode := by
  -- one case for each first nibble, in the order in which they are tried
  unfold fetch at h
  extract_lets code function at h
  rcases ok_of_ite h with ⟨h0, h⟩ | h
  · obtain ⟨_, hf, h⟩ := bind_eq_ok.1 h
    obtain rfl := Except.ok.inj h
    exact holdsAt_opcode hb h0 (eq_of_check hf)
  rcases ok_of_ite h with ⟨h1, h⟩ | h
  · obtain ⟨_, hf, h⟩ := bind_eq_ok.1 h
    obtain rfl := Except.ok.inj h
    exact holdsAt_opcode hb h1 (eq_of_check hf)
  rcases ok_of_ite h with ⟨h2, h⟩ | h
  · obtain ⟨pair, hpair, h⟩ := bind_eq_ok.1 h
    obtain ⟨c, hc, h⟩ := bind_eq_ok.1 h
    obtain ⟨src, hsrc, h⟩ := bind_eq_ok.1 h
    obtain ⟨dst, hdst, h⟩ := bind_eq_ok.1 h
    obtain rfl := Except.ok.inj h
    exact holdsAt_pair hb h2 (Condition.code_of_required hc) hpair
      (Reg.code_of_required hsrc) (Reg.code_of_required hdst) hr
  rcases ok_of_ite h with ⟨h3, h⟩ | h
  · obtain ⟨pair, hpair, h⟩ := bind_eq_ok.1 h
    obtain ⟨_, hf, h⟩ := bind_eq_ok.1 h
    obtain ⟨dst, hdst, h⟩ := bind_eq_ok.1 h
    obtain ⟨v, hv, h⟩ := bind_eq_ok.1 h
    obtain rfl := Except.ok.inj h
    simp only [check_eq_ok, Bool.and_eq_true, beq_iff_eq] at hf
    exact (holdsAt_pair hb h3 hf.1.symm hpair hf.2.symm (Reg.code_of_required hdst)
      (by simp only [Instruction.length] at hr; omega)).append_word hv hr
  rcases ok_of_ite h with ⟨h4, h⟩ | h
  · obtain ⟨pair, hpair, h⟩ := bind_eq_ok.1 h
    obtain ⟨_, hf, h⟩ := bind_eq_ok.1 h
    obtain ⟨src, hsrc, h⟩ := bind_eq_ok.1 h
    obtain ⟨d, hd, h⟩ := bind_eq_ok.1 h
    obtain ⟨base, hbase, h⟩ := bind_eq_ok.1 h
    obtain rfl := Except.ok.inj h
    exact (holdsAt_pair hb h4 (eq_of_check hf) hpair (Reg.code_of_required hsrc)
      (baseCode_of_fetchBase hbase)
      (by simp only [Instruction.length] at hr; omega)).append_word hd hr
  rcases ok_of_ite h with ⟨h5, h⟩ | h
  · obtain ⟨pair, hpair, h⟩ := bind_eq_ok.1 h
    obtain ⟨_, hf, h⟩ := bind_eq_ok.1 h
    obtain ⟨dst, hdst, h⟩ := bind_eq_ok.1 h
    obtain ⟨d, hd, h⟩ := bind_eq_ok.1 h
    obtain ⟨base, hbase, h⟩ := bind_eq_ok.1 h
    obtain rfl := Except.ok.inj h
    exact (holdsAt_pair hb h5 (eq_of_check hf) hpair (Reg.code_of_required hdst)
      (baseCode_of_fetchBase hbase)
      (by simp only [Instruction.length] at hr; omega)).append_word hd hr
  rcases ok_of_ite h with ⟨h6, h⟩ | h
  · obtain ⟨pair, hpair, h⟩ := bind_eq_ok.1 h
    obtain ⟨src, hsrc, h⟩ := bind_eq_ok.1 h
    obtain ⟨dst, hdst, h⟩ := bind_eq_ok.1 h
    obtain ⟨op, hop, h⟩ := bind_eq_ok.1 h
    obtain rfl := Except.ok.inj h
    exact holdsAt_pair hb h6 (AluOp.code_of_required hop) hpair
      (Reg.code_of_required hsrc) (Reg.code_of_required hdst) hr
  rcases ok_of_ite h with ⟨h7, h⟩ | h
  · obtain ⟨c, hc, h⟩ := bind_eq_ok.1 h
    obtain ⟨dest, hdest, h⟩ := bind_eq_ok.1 h
    obtain rfl := Except.ok.inj h
    exact (holdsAt_opcode hb h7 (Condition.code_of_required hc)).append_word hdest hr
  rcases ok_of_ite h with ⟨h8, h⟩ | h
  · obtain ⟨_, hf, h⟩ := bind_eq_ok.1 h
    obtain ⟨dest, hdest, h⟩ := bind_eq_ok.1 h
    obtain rfl := Except.ok.inj h
    exact (holdsAt_opcode hb h8 (eq_of_check hf)).append_word hdest hr
  rcases ok_of_ite h with ⟨h9, h⟩ | h
  · obtain ⟨_, hf, h⟩ := bind_eq_ok.1 h
    obtain rfl := Except.ok.inj h
    exact holdsAt_opcode hb h9 (eq_of_check hf)
  rcases ok_of_ite h with ⟨ha, h⟩ | h
  · obtain ⟨pair, hpair, h⟩ := bind_eq_ok.1 h
    obtain ⟨_, hf, h⟩ := bind_eq_ok.1 h
    obtain ⟨src, hsrc, h⟩ := bind_eq_ok.1 h
    obtain ⟨_, hlow, h⟩ := bind_eq_ok.1 h
    obtain rfl := Except.ok.inj h
    exact holdsAt_pair hb ha (eq_of_check hf) hpair (Reg.code_of_required hsrc)
      (eq_of_check hlow) hr
  rcases ok_of_ite h with ⟨hb', h⟩ | h
  · obtain ⟨pair, hpair, h⟩ := bind_eq_ok.1 h
    obtain ⟨_, hf, h⟩ := bind_eq_ok.1 h
    obtain ⟨dst, hdst, h⟩ := bind_eq_ok.1 h
    obtain ⟨_, hlow, h⟩ := bind_eq_ok.1 h
    obtain rfl := Except.ok.inj h
    exact holdsAt_pair hb hb' (eq_of_check hf) hpair (Reg.code_of_required hdst)
      (eq_of_check hlow) hr
  cases h

end Memory

/-! ### What an instruction names -/

namespace Instruction

/-- The register that an instruction names as its destination. -/
def destination? {α : Type} : Instruction α → Option Reg
  | .move _ _ dst | .constant _ dst | .load _ _ dst | .alu _ _ dst | .pop dst => some dst
  | _ => none

/-- Whether an instruction moves the stack pointer, whatever registers it names. -/
def movesStack {α : Type} : Instruction α → Bool
  | .push _ | .pop _ | .call _ | .ret => true
  | _ => false

/-- The registers that an instruction may change: its destination, and the stack pointer where it
moves it. -/
def Changes {α : Type} (i : Instruction α) (r : Reg) : Prop :=
  i.destination? = some r ∨ r = .esp ∧ i.movesStack = true

theorem Changes.get_set {α : Type} {i : Instruction α} {q : Reg} (h : i.Changes q) (f : Registers)
    (v : UInt32) (r : Reg) : (f.set q v).get r = f.get r ∨ i.Changes r := by
  by_cases hr : r = q
  · right
    rwa [hr]
  · left
    rw [Registers.get_set, if_neg hr]

end Instruction

namespace Machine

variable {s t : Machine} {i : Instruction UInt32} {a v : UInt32}

/-- The word that an instruction stores, at the address `target?`. -/
def stored? (s : Machine) : Instruction UInt32 → Option UInt32
  | .store src _ _ | .push src => some (s.get src)
  | .call _ => some (s.pc + 5)
  | _ => none

/-- Nothing that a program can see has changed. -/
structure Untouched (s t : Machine) : Prop where
  registers : t.registers = s.registers
  pc : t.pc = s.pc
  flags : t.flags = s.flags
  memory : t.memory = s.memory

/-- The machine runs on or has halted, and nothing has changed but what an instruction names: flags
for an operation only, and registers that the instruction may change. Memory has changed in the four
bytes of the word at `target?` only, if there is one; that word lies in memory and is now the word
that the instruction stores. -/
structure Confined (s : Machine) (i : Instruction UInt32) (t : Machine) : Prop where
  status : t.status = .running ∨ t.status = .halted
  flags : t.flags = s.flags ∨ ∃ op src dst, i = .alu op src dst
  registers : ∀ r, t.get r = s.get r ∨ i.Changes r
  size : t.memory.size = s.memory.size
  bytes : ∀ n, t.memory.byteAt n = s.memory.byteAt n ∨
    ∃ a, s.target? i = some a ∧ a.toNat ≤ n ∧ n < a.toNat + 4
  stored : ∀ a, s.target? i = some a →
    s.memory.hasWord a = true ∧ ∃ v, s.stored? i = some v ∧ t.memory.word? a = some v

theorem Confined.of_steps {n : Nat} (h : Confined { s with steps := n } i t) : Confined s i t :=
  ⟨h.status, h.flags, h.registers, h.size, h.bytes, h.stored⟩

theorem confined_of_memory_eq (hstatus : t.status = .running ∨ t.status = .halted)
    (hflags : t.flags = s.flags ∨ ∃ op src dst, i = .alu op src dst)
    (hregisters : ∀ r, t.get r = s.get r ∨ i.Changes r) (hmemory : t.memory = s.memory)
    (htarget : s.target? i = none) : Confined s i t := by
  refine ⟨hstatus, hflags, hregisters, ?_, fun n => .inl ?_, fun a ha => ?_⟩
  · rw [hmemory]
  · rw [hmemory]
  · rw [htarget] at ha
    cases ha

theorem confined_of_setWord (hstatus : t.status = .running) (hflags : t.flags = s.flags)
    (hregisters : ∀ r, t.get r = s.get r ∨ i.Changes r) (hword : s.memory.hasWord a = true)
    (hmemory : t.memory = s.memory.setWord a v) (htarget : s.target? i = some a)
    (hstored : s.stored? i = some v) : Confined s i t := by
  refine ⟨.inl hstatus, .inl hflags, hregisters, ?_, fun n => ?_, fun b hb => ?_⟩
  · rw [hmemory, Memory.size_setWord]
  · by_cases hn : a.toNat ≤ n ∧ n < a.toNat + 4
    · exact .inr ⟨a, htarget, hn⟩
    · left
      rw [hmemory, Memory.byteAt_setWord_of_ne _ _ _ (by omega)]
  · obtain rfl : a = b := Option.some.inj (htarget.symm.trans hb)
    refine ⟨hword, v, hstored, ?_⟩
    rw [hmemory, Memory.word?_setWord _ _ _ hword]

/-! ### Steps -/

theorem storeWord_cases {P : Machine → Prop} {next : Machine → Machine}
    (h : s.memory.hasWord a = true → P (next { s with memory := s.memory.setWord a v })) :
    (∃ b, s.storeWord a v next = s.stop (.address b)) ∨ P (s.storeWord a v next) := by
  unfold storeWord
  split_ifs with hword
  · exact .inr (h hword)
  · exact .inl ⟨a, rfl⟩

theorem loadWord_cases {P : Machine → Prop} {next : Machine → UInt32 → Machine}
    (h : ∀ v, P (next s v)) :
    (∃ b, s.loadWord a next = s.stop (.address b)) ∨ P (s.loadWord a next) := by
  unfold loadWord
  cases s.memory.word? a with
  | none => exact .inl ⟨a, rfl⟩
  | some v => exact .inr (h v)

/-- **What an instruction does**: it stops at an address beyond the memory, or it has changed what
it names. -/
theorem execute_cases (hs : s.status = .running) (i : Instruction UInt32) :
    (∃ a, s.execute i = s.stop (.address a)) ∨ Confined s i (s.execute i) := by
  have none_changed (t : Machine) (h : t.registers = s.registers) (r : Reg) :
      t.get r = s.get r ∨ i.Changes r := .inl (by rw [get, get, h])
  cases i with
  | halt =>
    exact .inr (confined_of_memory_eq (.inr rfl) (.inl rfl) (none_changed _ rfl) rfl rfl)
  | nop =>
    exact .inr (confined_of_memory_eq (.inl hs) (.inl rfl) (none_changed _ rfl) rfl rfl)
  | move c src dst =>
    right
    unfold execute
    dsimp only
    split_ifs
    · exact confined_of_memory_eq (.inl hs) (.inl rfl)
        (Instruction.Changes.get_set (.inl rfl) s.registers _) rfl rfl
    · exact confined_of_memory_eq (.inl hs) (.inl rfl) (none_changed _ rfl) rfl rfl
  | constant v dst =>
    exact .inr (confined_of_memory_eq (.inl hs) (.inl rfl)
      (Instruction.Changes.get_set (.inl rfl) s.registers _) rfl rfl)
  | store src d base =>
    rw [execute]
    refine storeWord_cases (P := Confined s (.store src d base)) fun hword => ?_
    exact confined_of_setWord hs rfl (none_changed _ rfl) hword rfl rfl rfl
  | load d base dst =>
    rw [execute]
    refine loadWord_cases (P := Confined s (.load d base dst)) fun v => ?_
    exact confined_of_memory_eq (.inl hs) (.inl rfl)
      (Instruction.Changes.get_set (.inl rfl) s.registers _) rfl rfl
  | alu op src dst =>
    exact .inr (confined_of_memory_eq (.inl hs) (.inr ⟨op, src, dst, rfl⟩)
      (Instruction.Changes.get_set (.inl rfl) s.registers _) rfl rfl)
  | jump c dest =>
    right
    unfold execute
    dsimp only
    split_ifs
    · exact confined_of_memory_eq (.inl hs) (.inl rfl) (none_changed _ rfl) rfl rfl
    · exact confined_of_memory_eq (.inl hs) (.inl rfl) (none_changed _ rfl) rfl rfl
  | call dest =>
    rw [execute]
    refine storeWord_cases (P := Confined s (.call dest)) fun hword => ?_
    exact confined_of_setWord hs rfl
      (Instruction.Changes.get_set (.inr ⟨rfl, rfl⟩) s.registers _) hword rfl rfl rfl
  | ret =>
    rw [execute]
    refine loadWord_cases (P := Confined s .ret) fun v => ?_
    exact confined_of_memory_eq (.inl hs) (.inl rfl)
      (Instruction.Changes.get_set (.inr ⟨rfl, rfl⟩) s.registers _) rfl rfl
  | push src =>
    rw [execute]
    refine storeWord_cases (P := Confined s (.push src)) fun hword => ?_
    exact confined_of_setWord hs rfl
      (Instruction.Changes.get_set (.inr ⟨rfl, rfl⟩) s.registers _) hword rfl rfl rfl
  | pop dst =>
    rw [execute]
    refine loadWord_cases (P := Confined s (.pop dst)) fun v => ?_
    refine confined_of_memory_eq (.inl hs) (.inl rfl) (fun r => ?_) rfl rfl
    -- two writes, the stack pointer first
    rcases Instruction.Changes.get_set (i := .pop dst) (.inl rfl)
      (s.registers.set .esp (s.get .esp + 4)) v r with hr | hr
    · exact (Instruction.Changes.get_set (.inr ⟨rfl, rfl⟩) s.registers _ r).imp_left hr.trans
    · exact .inr hr

/-- **How a step comes about**: the first byte is beyond the memory, or the bytes are no instruction
or not all there, or an instruction is executed. Steps count from the first byte on. -/
theorem step_cases (hs : s.status = .running) :
    (s.memory.size ≤ s.pc.toNat ∧ s.step = s.stop (.address s.pc)) ∨
      s.pc.toNat < s.memory.size ∧
        ((∃ o, s.step = { s with steps := s.steps + 1 }.stop o) ∨
          ∃ i, s.current? = some i ∧
            (s.pc.toNat + i.length ≤ 2 ^ 32 → s.memory.HoldsAt s.pc i.encode) ∧
            s.step = { s with steps := s.steps + 1 }.execute i) := by
  unfold step current?
  rw [if_pos hs, if_pos hs]
  cases hb : s.memory.byte? s.pc with
  | none =>
    left
    refine ⟨?_, rfl⟩
    by_contra hlt
    rw [Memory.byte?, if_pos (by omega)] at hb
    cases hb
  | some first =>
    refine .inr ⟨(Memory.byte?_eq_some.1 hb).1, ?_⟩
    dsimp only
    cases hf : s.memory.fetch s.pc first with
    | error o => exact .inl ⟨o, rfl⟩
    | ok i => exact .inr ⟨i, rfl, Memory.holdsAt_of_fetch hb hf, rfl⟩

/-- **A step is all or nothing.** If it ends at an obstacle, nothing has changed, and the step
counts unless its first byte was beyond the memory. Otherwise it counts, and it has changed only
what the instruction at the program counter names. -/
theorem step_confined (hs : s.status = .running) :
    (s.step.status = .badAddress ∨ s.step.status = .badInstruction →
      Untouched s s.step ∧
        s.step.steps = if s.pc.toNat < s.memory.size then s.steps + 1 else s.steps) ∧
    (¬ (s.step.status = .badAddress ∨ s.step.status = .badInstruction) →
      s.step.steps = s.steps + 1 ∧
        ∃ i, s.current? = some i ∧
          (s.pc.toNat + i.length ≤ 2 ^ 32 → s.memory.HoldsAt s.pc i.encode) ∧
          Confined s i s.step) := by
  have stopped (t : Machine) (o : Obstacle) :
      (t.stop o).status = .badAddress ∨ (t.stop o).status = .badInstruction := by
    cases o with
    | address a => exact .inl rfl
    | instruction => exact .inr rfl
  rcases step_cases hs with ⟨hsize, h⟩ | ⟨hsize, ⟨o, h⟩ | ⟨i, hi, hbytes, h⟩⟩
  · rw [h]
    refine ⟨fun _ => ⟨⟨rfl, rfl, rfl, rfl⟩, ?_⟩, fun hno => absurd (stopped s _) hno⟩
    rw [if_neg (by omega)]
    rfl
  · rw [h]
    refine ⟨fun _ => ⟨⟨rfl, rfl, rfl, rfl⟩, ?_⟩, fun hno => absurd (stopped _ o) hno⟩
    rw [if_pos hsize]
    rfl
  · have hsteps : s.step.steps = s.steps + 1 := by rw [h, steps_execute]
    rcases execute_cases (s := { s with steps := s.steps + 1 }) hs i with ⟨a, ha⟩ | hc
    · rw [ha] at h
      refine ⟨fun _ => ⟨?_, ?_⟩, fun hno => ?_⟩
      · rw [h]
        exact ⟨rfl, rfl, rfl, rfl⟩
      · rw [if_pos hsize, hsteps]
      · rw [h] at hno
        exact absurd (stopped _ _) hno
    · rw [← h] at hc
      refine ⟨fun hbad => ?_, fun _ => ⟨hsteps, i, hi, hbytes, hc.of_steps⟩⟩
      rcases hc.status with hstatus | hstatus
      · rw [hstatus] at hbad
        rcases hbad with hbad | hbad <;> cases hbad
      · rw [hstatus] at hbad
        rcases hbad with hbad | hbad <;> cases hbad

/-- A store that overwrites its own displacement, and a `push` for which there is no room. -/
theorem step_confined_overlap :
    let s : Machine := { Machine.fresh 16 with
      registers := { ecx := 0xdeadbeef }, memory := ⟨16, #[0x40, 0x1f, 2]⟩ }
    let t : Machine := { Machine.fresh 16 with memory := ⟨16, #[0xa0, 0x1f]⟩ }
    (s.status = .running ∧ s.step.steps = 1 ∧ Confined s (.store .ecx 2 none) s.step ∧
        s.step.memory.word? 2 = some 0xdeadbeef) ∧
      t.status = .running ∧ t.step.status = .badAddress ∧ Untouched t t.step ∧
        t.step.steps = 1 := by
  intro s t
  have hs : s.status = .running := rfl
  have ht : t.status = .running := rfl
  obtain ⟨hsteps, i, hi, -, hc⟩ := (step_confined hs).2 (by decide)
  have hcurrent : s.current? = some (.store .ecx 2 none) := by decide
  obtain rfl := Option.some.inj (hcurrent.symm.trans hi)
  obtain ⟨v, hv, hword⟩ := (hc.stored 2 rfl).2
  obtain rfl := Option.some.inj hv
  have hbad : t.step.status = .badAddress := by decide
  obtain ⟨huntouched, hsteps'⟩ := (step_confined ht).1 (.inl hbad)
  exact ⟨⟨hs, hsteps, hc, hword⟩, ht, hbad, huntouched, hsteps'⟩

end Machine

end RpnY86.Y86
