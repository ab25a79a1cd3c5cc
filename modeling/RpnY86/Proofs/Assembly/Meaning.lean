import RpnY86.Proofs.Assembly.Chunks
import RpnY86.Proofs.Assembly.Operands
import RpnY86.Proofs.Y86.Exact
import RpnY86.Proofs.Y86.Iterate

/-! # What a line does to a machine

The meaning of a statement is given by its mnemonic and its operands in the order of the line, one
component of the machine at a time: the word of data that it accesses (`accessed?`), and what it
leaves in each register, in each byte of memory, in the flags and in the program counter. An
operation leaves what a word keeps of a whole number.

`step_of_addLine` says that assembling a line and stepping through its bytes has this meaning, for
the mnemonic and the operands that its texts stand for (`mnemonicNames`, `Writes`). -/

namespace RpnY86.Assembly

open Y86 (Condition Flags Instruction Machine Reg)

/-! ### Operands -/

/-- The kinds of the operands of an instruction, in the order of a line. -/
def Mnemonic.format : Mnemonic → List Operand.Kind
  | .halt | .nop | .ret => []
  | .push | .pop => [.register]
  | .move _ | .alu _ => [.register, .register]
  | .jump _ | .call => [.word]
  | .constant => [.word, .register]
  | .store => [.register, .place]
  | .load => [.place, .register]

/-- The instruction that a mnemonic and operands stand for. -/
inductive Denotes : Mnemonic → List Operand → Instruction UInt32 → Prop
  | halt : Denotes .halt [] .halt
  | nop : Denotes .nop [] .nop
  | ret : Denotes .ret [] .ret
  | push (a : Reg) : Denotes .push [.register a] (.push a)
  | pop (b : Reg) : Denotes .pop [.register b] (.pop b)
  | move (c : Condition) (a b : Reg) :
    Denotes (.move c) [.register a, .register b] (.move c a b)
  | alu (op : Y86.AluOp) (a b : Reg) :
    Denotes (.alu op) [.register a, .register b] (.alu op a b)
  | jump (c : Condition) (v : UInt32) : Denotes (.jump c) [.word v] (.jump c v)
  | call (v : UInt32) : Denotes .call [.word v] (.call v)
  | constant (v : UInt32) (b : Reg) : Denotes .constant [.word v, .register b] (.constant v b)
  | store (a : Reg) (d : UInt32) (base : Reg) :
    Denotes .store [.register a, .place d base] (.store a d (some base))
  | load (d : UInt32) (base b : Reg) :
    Denotes .load [.place d base, .register b] (.load d (some base) b)

variable {l : Line} {labels : LabelTable} {m : Mnemonic} {ops : List Operand}
  {i : Instruction UInt32}

theorem Denotes.mnemonic_eq (h : Denotes m ops i) : i.mnemonic = m := by
  cases h <;> rfl

theorem Denotes.map_kind (h : Denotes m ops i) : ops.map Operand.kind = m.format := by
  cases h <;> rfl

theorem writes_register {t : Text} {r : Reg} (h : l.register t = .ok r) :
    Writes labels t (.register r) :=
  .register (register_eq_ok.1 h)

theorem writes_word {t : Text} {v : UInt32} (h : l.word labels t = .ok v) :
    Writes labels t (.word v) :=
  .word (word_eq_ok.1 h)

/-- The operands of a line are read one by one, each as its mnemonic asks for it. -/
theorem denotes_of_instruction (h : l.instruction labels m = .ok i) :
    ∃ ops, List.Forall₂ (Writes labels) l.operands ops ∧ Denotes m ops i := by
  unfold Line.instruction at h
  split at h
  case h_13 => exact nomatch h
  case h_1 hops => exact ⟨[], hops ▸ .nil, Except.ok.inj h ▸ .halt⟩
  case h_2 hops => exact ⟨[], hops ▸ .nil, Except.ok.inj h ▸ .nop⟩
  case h_3 hops => exact ⟨[], hops ▸ .nil, Except.ok.inj h ▸ .ret⟩
  case h_4 hops =>
    obtain ⟨a, ha, h⟩ := bind_eq_ok.1 h
    exact ⟨[.register a], hops ▸ .cons (writes_register ha) .nil, Except.ok.inj h ▸ .push a⟩
  case h_5 hops =>
    obtain ⟨b, hb, h⟩ := bind_eq_ok.1 h
    exact ⟨[.register b], hops ▸ .cons (writes_register hb) .nil, Except.ok.inj h ▸ .pop b⟩
  case h_6 c _ _ hops =>
    obtain ⟨a, ha, h⟩ := bind_eq_ok.1 h
    obtain ⟨b, hb, h⟩ := bind_eq_ok.1 h
    exact ⟨[.register a, .register b],
      hops ▸ .cons (writes_register ha) (.cons (writes_register hb) .nil),
      Except.ok.inj h ▸ .move c a b⟩
  case h_7 op _ _ hops =>
    obtain ⟨a, ha, h⟩ := bind_eq_ok.1 h
    obtain ⟨b, hb, h⟩ := bind_eq_ok.1 h
    exact ⟨[.register a, .register b],
      hops ▸ .cons (writes_register ha) (.cons (writes_register hb) .nil),
      Except.ok.inj h ▸ .alu op a b⟩
  case h_8 c _ hops =>
    obtain ⟨v, hv, h⟩ := bind_eq_ok.1 h
    exact ⟨[.word v], hops ▸ .cons (writes_word hv) .nil, Except.ok.inj h ▸ .jump c v⟩
  case h_9 hops =>
    obtain ⟨v, hv, h⟩ := bind_eq_ok.1 h
    exact ⟨[.word v], hops ▸ .cons (writes_word hv) .nil, Except.ok.inj h ▸ .call v⟩
  case h_10 hops =>
    obtain ⟨v, hv, h⟩ := bind_eq_ok.1 h
    obtain ⟨b, hb, h⟩ := bind_eq_ok.1 h
    exact ⟨[.word v, .register b], hops ▸ .cons (writes_word hv) (.cons (writes_register hb) .nil),
      Except.ok.inj h ▸ .constant v b⟩
  case h_11 hops =>
    obtain ⟨a, ha, h⟩ := bind_eq_ok.1 h
    obtain ⟨⟨d, base⟩, hd, h⟩ := bind_eq_ok.1 h
    exact ⟨[.register a, .place d base],
      hops ▸ .cons (writes_register ha) (.cons (place_eq_ok.1 hd) .nil),
      Except.ok.inj h ▸ .store a d base⟩
  case h_12 hops =>
    obtain ⟨b, hb, h⟩ := bind_eq_ok.1 h
    obtain ⟨⟨d, base⟩, hd, h⟩ := bind_eq_ok.1 h
    exact ⟨[.place d base, .register b],
      hops ▸ .cons (place_eq_ok.1 hd) (.cons (writes_register hb) .nil),
      Except.ok.inj h ▸ .load d base b⟩

/-! ### Meaning -/

namespace Mnemonic

variable (s : Machine) (m : Mnemonic) (ops : List Operand)

/-- The address of the word of data that a statement reads or writes. -/
def accessed? : Option UInt32 :=
  match m, ops with
  | .store, [_, .place d base] => some (d + s.get base)
  | .load, [.place d base, _] => some (d + s.get base)
  | .push, _ | .call, _ => some (s.get .esp - 4)
  | .pop, _ | .ret, _ => some (s.get .esp)
  | _, _ => none

/-- The word that lies at an address. -/
def found (a : UInt32) : UInt32 := UInt32.ofNat (s.memory.numberAt a.toNat)

/-- The word that a statement writes to memory. -/
def stored? : Option UInt32 :=
  match m, ops with
  | .store, [.register a, _] => some (s.get a)
  | .push, [.register a] => some (s.get a)
  | .call, _ => some (s.pc + UInt32.ofNat m.length)
  | _, _ => none

/-- The byte that a statement leaves at position `n`. -/
def byteAfter (n : Nat) : UInt8 :=
  match m.accessed? s ops, m.stored? s ops with
  | some a, some v =>
    if a.toNat ≤ n ∧ n < a.toNat + 4 then UInt8.ofNat (v.toNat / 2 ^ (8 * (n - a.toNat)))
    else s.memory.byteAt n
  | _, _ => s.memory.byteAt n

/-- The word that a statement leaves in register `q`. -/
def registerAfter (q : Reg) : UInt32 :=
  match m, ops with
  | .move c, [.register a, .register b] => if q = b ∧ c.Says s.flags then s.get a else s.get q
  | .constant, [.word v, .register b] => if q = b then v else s.get q
  | .load, [.place d base, .register b] =>
    if q = b then found s (d + s.get base) else s.get q
  | .alu op, [.register a, .register b] =>
    if q = b then UInt32.ofInt (op.exact (s.get a) (s.get b)) else s.get q
  | .push, _ | .call, _ => if q = .esp then s.get .esp - 4 else s.get q
  | .ret, _ => if q = .esp then s.get .esp + 4 else s.get q
  | .pop, [.register b] =>
    if q = b then found s (s.get .esp) else if q = .esp then s.get .esp + 4 else s.get q
  | _, _ => s.get q

/-- The flags that a statement leaves. -/
def flagsAfter : Flags :=
  match m, ops with
  | .alu op, [.register a, .register b] => .ofExact (op.exact (s.get a) (s.get b))
  | _, _ => s.flags

/-- Where a statement goes on. -/
def pcAfter : UInt32 :=
  match m, ops with
  | .halt, _ => s.pc
  | .jump c, [.word v] => if c.Says s.flags then v else s.pc + UInt32.ofNat m.length
  | .call, [.word v] => v
  | .ret, _ => found s (s.get .esp)
  | _, _ => s.pc + UInt32.ofNat m.length

end Mnemonic

/-- The data that a statement accesses does not lie in memory. -/
def OutOfMemory (s : Machine) (m : Mnemonic) (ops : List Operand) (a : UInt32) : Prop :=
  m.accessed? s ops = some a ∧ s.memory.size < a.toNat + 4

/-- A statement takes a machine `s` to `s'`. -/
structure Effect (s : Machine) (m : Mnemonic) (ops : List Operand) (s' : Machine) : Prop where
  registers : ∀ q, s'.get q = m.registerAfter s ops q
  flags : s'.flags = m.flagsAfter s ops
  pc : s'.pc = m.pcAfter s ops
  size : s'.memory.size = s.memory.size
  bytes : ∀ n, s'.memory.byteAt n = m.byteAfter s ops n
  status : s'.status = if m = .halt then .halted else .running
  fault : s'.fault = s.fault

theorem Effect.of_steps {s s' : Machine} {n : Nat} (h : Effect { s with steps := n } m ops s') :
    Effect s m ops s' :=
  ⟨h.registers, h.flags, h.pc, h.size, h.bytes, h.status, h.fault⟩

/-! ### Executing a statement -/

variable {s : Machine} {a v : UInt32}

theorem hasWord_of_accessed (h : ∀ a, ¬ OutOfMemory s m ops a) (ha : m.accessed? s ops = some a) :
    s.memory.hasWord a = true := by
  have := h a
  rw [Y86.Memory.hasWord_iff]
  simp only [OutOfMemory, ha, true_and] at this
  omega

theorem storeWord_of_hasWord {next : Machine → Machine} (h : s.memory.hasWord a = true) :
    s.storeWord a v next = next { s with memory := s.memory.setWord a v } :=
  if_pos h

theorem loadWord_of_hasWord {next : Machine → UInt32 → Machine} (h : s.memory.hasWord a = true) :
    s.loadWord a next = next s (Mnemonic.found s a) := by
  rw [Machine.loadWord, Y86.Memory.word?, if_pos h, Y86.Memory.wordAt_eq]
  rfl

theorem Denotes.effect (h : Denotes m ops i) (hs : s.status = .running)
    (hin : ∀ a, ¬ OutOfMemory s m ops a) :
    Effect s m ops (s.execute i) := by
  have hroom {a : UInt32} := hasWord_of_accessed (a := a) hin
  cases h with
  | halt => exact ⟨fun q => rfl, rfl, rfl, rfl, fun n => rfl, rfl, rfl⟩
  | nop => exact ⟨fun q => rfl, rfl, rfl, rfl, fun n => rfl, hs, rfl⟩
  | ret =>
    rw [Machine.execute, loadWord_of_hasWord (hroom rfl)]
    exact ⟨fun q => s.registers.get_set .esp q _, rfl, rfl, rfl, fun n => rfl, hs, rfl⟩
  | push a =>
    rw [Machine.execute, storeWord_of_hasWord (hroom rfl)]
    exact ⟨fun q => s.registers.get_set .esp q _, rfl, rfl, Y86.Memory.size_setWord ..,
      s.memory.byteAt_setWord_eq _ _, hs, rfl⟩
  | pop b =>
    rw [Machine.execute, loadWord_of_hasWord (hroom rfl)]
    refine ⟨fun q => ?_, rfl, rfl, rfl, fun n => rfl, hs, rfl⟩
    change ((s.registers.set .esp _).set b _).get q = _
    rw [Y86.Registers.get_set, Y86.Registers.get_set]
    rfl
  | move c a b =>
    rw [Machine.execute]
    by_cases hc : c.holds s.flags = true
    · rw [if_pos hc]
      refine ⟨fun q => ?_, rfl, rfl, rfl, fun n => rfl, hs, rfl⟩
      simp only [Mnemonic.registerAfter, (c.holds_iff_says s.flags).1 hc, and_true]
      exact s.registers.get_set b q _
    · rw [if_neg hc]
      refine ⟨fun q => ?_, rfl, rfl, rfl, fun n => rfl, hs, rfl⟩
      simp only [Mnemonic.registerAfter, mt (c.holds_iff_says s.flags).2 hc, and_false, if_false]
      rfl
  | alu op a b =>
    refine ⟨fun q => ?_, op.flags_eq _ _, rfl, rfl, fun n => rfl, hs, rfl⟩
    simp only [Mnemonic.registerAfter, ← Y86.AluOp.result_eq]
    exact s.registers.get_set b q _
  | jump c v =>
    rw [Machine.execute]
    by_cases hc : c.holds s.flags = true
    · rw [if_pos hc]
      refine ⟨fun q => rfl, rfl, ?_, rfl, fun n => rfl, hs, rfl⟩
      exact (if_pos ((c.holds_iff_says s.flags).1 hc)).symm
    · rw [if_neg hc]
      refine ⟨fun q => rfl, rfl, ?_, rfl, fun n => rfl, hs, rfl⟩
      exact (if_neg (mt (c.holds_iff_says s.flags).2 hc)).symm
  | call v =>
    rw [Machine.execute, storeWord_of_hasWord (hroom rfl)]
    exact ⟨fun q => s.registers.get_set .esp q _, rfl, rfl, Y86.Memory.size_setWord ..,
      s.memory.byteAt_setWord_eq _ _, hs, rfl⟩
  | constant v b =>
    exact ⟨fun q => s.registers.get_set b q _, rfl, rfl, rfl, fun n => rfl, hs, rfl⟩
  | store a d base =>
    rw [Machine.execute, Machine.address, storeWord_of_hasWord (hroom rfl)]
    exact ⟨fun q => rfl, rfl, rfl, Y86.Memory.size_setWord .., s.memory.byteAt_setWord_eq _ _, hs,
      rfl⟩
  | load d base b =>
    rw [Machine.execute, Machine.address, loadWord_of_hasWord (hroom rfl)]
    exact ⟨fun q => s.registers.get_set b q _, rfl, rfl, rfl, fun n => rfl, hs, rfl⟩

theorem Denotes.execute_eq_stop (h : Denotes m ops i) (hout : OutOfMemory s m ops a) :
    s.execute i = s.stop (.address a) := by
  obtain ⟨ha, hsize⟩ := hout
  have hw : ¬ s.memory.hasWord a = true := by
    rw [Y86.Memory.hasWord_iff]
    omega
  have hload : s.memory.word? a = none := if_neg hw
  cases h with
  | halt | nop | move | alu | jump | constant => exact nomatch ha
  | push | call | store =>
    obtain rfl := Option.some.inj ha
    exact if_neg hw
  | ret | pop | load =>
    obtain rfl := Option.some.inj ha
    simp only [Machine.execute, Machine.loadWord, Machine.address, hload]

theorem exists_instruction {e e' : Emission} {name : String} (hname : l.mnemonic = some name)
    (hdirective : name ∉ directiveNames) (hl : e.addLine labels l = .ok e') :
    ∃ m i, (name, m) ∈ mnemonicNames ∧ l.instruction labels m = .ok i ∧
      e' = e.add (some l.number) i.encode := by
  have hinstruction {k : Keyword} (hk : l.keyword? = some k) :
      ∃ m, (name, m) ∈ mnemonicNames ∧ .instruction m = k := by
    rw [Line.keyword?, hname, Option.bind_some,
      ofName?_of_not_mem_directiveNames hdirective] at hk
    obtain ⟨m, hm, hmk⟩ := Option.map_eq_some_iff.1 hk
    exact ⟨m, mem_mnemonicNames.2 hm, hmk⟩
  rcases addLine_cases hl with ⟨hnone, -⟩ | ⟨m, i, hk, hi, he⟩ | ⟨_, _, hk, -⟩ | ⟨_, _, -, hk, -⟩
  · rw [hname] at hnone
    cases hnone
  · obtain ⟨_, hm, ⟨⟩⟩ := hinstruction hk
    exact ⟨m, i, hm, hi, he⟩
  · obtain ⟨_, -, ⟨⟩⟩ := hinstruction hk
  · obtain ⟨_, -, ⟨⟩⟩ := hinstruction hk

/-- **Assembling and executing.** The bytes of an instruction line are as many as its mnemonic says,
and the machine that finds them at its program counter does what the line says: it never takes them
for no instruction, it stops at an address just if the line's data does not lie in memory, and else
it leaves what the mnemonic means for the operands of the line, in their order. -/
theorem step_of_addLine {e e' : Emission} {name : String} (hname : l.mnemonic = some name)
    (hdirective : name ∉ directiveNames) (hl : e.addLine labels l = .ok e') :
    ∃ m ops bs, (name, m) ∈ mnemonicNames ∧ List.Forall₂ (Writes labels) l.operands ops ∧
      ops.map Operand.kind = m.format ∧ e' = e.add (some l.number) bs ∧ bs.length = m.length ∧
      ∀ s : Machine, s.status = .running → s.memory.HoldsAt s.pc bs →
        s.step.steps = s.steps + 1 ∧ s.step.status ≠ .badInstruction ∧
        (s.step.status = .badAddress ↔ ∃ a, OutOfMemory s m ops a) ∧
        (∀ a, OutOfMemory s m ops a → s.step =
          { s with
            steps := s.steps + 1, status := .badAddress,
            fault := some { pc := s.pc, obstacle := .address a } }) ∧
        ((∀ a, ¬ OutOfMemory s m ops a) → Effect s m ops s.step) := by
  obtain ⟨m, i, hm, hi, rfl⟩ := exists_instruction hname hdirective hl
  obtain ⟨ops, hops, hd⟩ := denotes_of_instruction hi
  have hlength : i.encode.length = m.length := by
    rw [i.length_encode, ← i.length_mnemonic, hd.mnemonic_eq]
  refine ⟨m, ops, i.encode, hm, hops, hd.map_kind, rfl, hlength, fun s hs hb => ?_⟩
  rw [Machine.step_eq_execute hs hb]
  refine ⟨Machine.steps_execute _ i, ?_⟩
  by_cases hout : ∃ a, OutOfMemory s m ops a
  · have hstop {a : UInt32} (ha : OutOfMemory s m ops a) :=
      hd.execute_eq_stop (s := { s with steps := s.steps + 1 }) ha
    obtain ⟨a, ha⟩ := hout
    refine ⟨?_, ?_, fun b hb => hstop hb, fun hin => absurd ha (hin a)⟩
    · rw [hstop ha]
      exact nofun
    · rw [hstop ha]
      exact ⟨fun _ => ⟨a, ha⟩, fun _ => rfl⟩
  · have heffect : Effect s m ops ({ s with steps := s.steps + 1 }.execute i) :=
      Effect.of_steps (n := s.steps + 1) (hd.effect hs (not_exists.1 hout))
    have hstatus := heffect.status
    refine ⟨?_, ?_, fun b hb => absurd ⟨b, hb⟩ hout, fun _ => heffect⟩
    · rw [hstatus]
      split <;> exact nofun
    · rw [hstatus]
      refine ⟨fun h => ?_, fun h => absurd h hout⟩
      split at h <;> exact nomatch h

/-- A difference, a number with a sign and a mark, and a label in front of a base. -/
theorem step_of_addLine_operands :
    let labels : LabelTable := [("table", 6)]
    let line (name : String) (a b : String) : Line := ⟨1, [], some name, [.ofString a, .ofString b]⟩
    let e : Emission := ⟨0, #[]⟩
    let s (bytes : List UInt8) : Machine :=
      { Machine.fresh 16 with
        registers := { eax := 5, ecx := 3, ebx := 2 }
        memory := ⟨16, (bytes ++ [0, 0, 7, 0, 0, 0]).toArray⟩ }
    (e.addLine labels (line "subl" "%eax" "%ECX") = .ok (e.add (some 1) [0x61, 0x01]) ∧
      (s [0x61, 0x01]).step.get .ecx = 0xfffffffe ∧
      (s [0x61, 0x01]).step.flags = ⟨false, true, false⟩ ∧ (s [0x61, 0x01]).step.pc = 2) ∧
    (e.addLine labels (line "irmovl" "$-0x1_0" "%edx") =
        .ok (e.add (some 1) [0x30, 0xf2, 0xf0, 0xff, 0xff, 0xff]) ∧
      (s [0x30, 0xf2, 0xf0, 0xff, 0xff, 0xff]).step.get .edx = 0xfffffff0) ∧
    e.addLine labels (line "mrmovl" "table(%ebx)" "%esi") =
        .ok (e.add (some 1) [0x50, 0x63, 0x06, 0, 0, 0]) ∧
      (s [0x50, 0x63, 0x06, 0, 0, 0]).step.get .esi = 7 := by
  intro labels line e s
  have heffect (l : Line) (m : Mnemonic) (ops : List Operand) (bs : List UInt8) {name : String}
      (hl : e.addLine labels l = .ok (e.add (some l.number) bs)) (hname : l.mnemonic = some name)
      (hm : (name, m) ∈ mnemonicNames) (hdirective : name ∉ directiveNames)
      (hops : List.Forall₂ (Writes labels) l.operands ops)
      (hkinds : ops.map Operand.kind = m.format) (hb : (s bs).memory.HoldsAt 0 bs)
      (hin : ∀ a, ¬ OutOfMemory (s bs) m ops a) :
      Effect (s bs) m ops (s bs).step := by
    obtain ⟨m', ops', bs', hm', hops', hkinds', hbs, -, hstep⟩ :=
      step_of_addLine hname hdirective hl
    obtain rfl : m = m' :=
      Option.some.inj ((mem_mnemonicNames.1 hm).symm.trans (mem_mnemonicNames.1 hm'))
    obtain rfl : ops = ops' := forall₂_writes_unique hops hops' (hkinds.trans hkinds'.symm)
    obtain rfl : bs = bs' := by
      have h := congrArg (fun e : Emission => e.chunks.back?.map Chunk.bytes) hbs
      simpa [Emission.add] using h
    obtain ⟨-, -, -, -, heffect⟩ := hstep (s bs) rfl hb
    exact heffect hin
  have hregister {t : Text} {r : Reg} (h : (line "" "" "").register t = .ok r) :
      Writes labels t (.register r) := .register (register_eq_ok.1 h)
  have hsub := heffect (line "subl" "%eax" "%ECX") (.alu .sub) [.register .eax, .register .ecx]
    [0x61, 0x01] rfl rfl (by decide) (by decide)
    (.cons (hregister rfl) (.cons (hregister rfl) .nil)) rfl ⟨by decide, by decide, by decide⟩
    (fun a ha => by cases ha.1)
  have hconstant := heffect (line "irmovl" "$-0x1_0" "%edx") .constant
    [.word 0xfffffff0, .register .edx] [0x30, 0xf2, 0xf0, 0xff, 0xff, 0xff] rfl rfl (by decide)
    (by decide) (.cons (writes_word (l := line "" "" "") rfl) (.cons (hregister rfl) .nil)) rfl
    ⟨by decide, by decide, by decide⟩ (fun a ha => by cases ha.1)
  have hload := heffect (line "mrmovl" "table(%ebx)" "%esi") .load
    [.place 6 .ebx, .register .esi] [0x50, 0x63, 0x06, 0, 0, 0] rfl rfl (by decide) (by decide)
    (.cons ((place_eq_ok (l := line "" "" "")).1 rfl) (.cons (hregister rfl) .nil)) rfl
    ⟨by decide, by decide, by decide⟩ (fun a ha => by
      obtain rfl := Option.some.inj ha.1
      exact absurd ha.2 (by decide))
  exact ⟨⟨rfl, (hsub.registers .ecx).trans (by decide), hsub.flags.trans (by decide), hsub.pc⟩,
    ⟨rfl, hconstant.registers .edx⟩, rfl, (hload.registers .esi).trans (by decide)⟩

end RpnY86.Assembly
