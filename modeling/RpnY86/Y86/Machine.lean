import RpnY86.Y86.Memory

/-! # The machine

A machine is a register file, a program counter, flags, a memory and a status. `step` executes the
instruction at the program counter. An instruction that cannot be executed leaves registers, flags,
program counter and memory as they are; the machine then stops and keeps what was wrong.

`fetch` reads an instruction in the order in which its bytes stand, and the first thing that is
wrong decides what is reported: a byte beyond the memory, or a code without a meaning. The register
code of a base is looked at behind the displacement. -/

namespace RpnY86.Y86

/-- The state of a machine with respect to running. -/
inductive Status where
  | running
  | halted
  | badAddress
  | badInstruction
  /-- A code without a meaning. A machine in this state does not run. -/
  | other (code : Int)
deriving DecidableEq, Repr

namespace Status

/-- The status with a given code. -/
def ofCode : Int → Status
  | 1 => .running
  | 2 => .halted
  | 3 => .badAddress
  | 4 => .badInstruction
  | n => .other n

/-- The name of a status. -/
def name : Status → String
  | .running => "AOK"
  | .halted => "HLT"
  | .badAddress => "ADR"
  | .badInstruction => "INS"
  | .other code => "Status(" ++ Numeral.decimal code ++ ")"

end Status

/-- Why an instruction cannot be executed. -/
inductive Obstacle where
  /-- A byte or word at `addr` is needed and does not lie in the memory. -/
  | address (addr : UInt32)
  /-- The bytes are no instruction. -/
  | instruction
deriving DecidableEq, Repr

/-- An obstacle and the address of the instruction that met it. -/
structure Fault where
  pc : UInt32
  obstacle : Obstacle
deriving DecidableEq, Repr

namespace Fault

/-- The status of a machine stopped by a fault. -/
def status (f : Fault) : Status :=
  match f.obstacle with
  | .address _ => .badAddress
  | .instruction => .badInstruction

/-- The message of a fault. -/
def message (f : Fault) : String :=
  match f.obstacle with
  | .address addr =>
    "invalid address 0x" ++ Numeral.hex addr.toNat ++ " at pc 0x" ++ Numeral.hex f.pc.toNat
  | .instruction => "invalid instruction at pc 0x" ++ Numeral.hex f.pc.toNat

end Fault

/-- A machine. -/
structure Machine where
  registers : Registers
  pc : UInt32
  flags : Flags
  memory : Memory
  status : Status
  /-- The number of instructions that were begun. -/
  steps : Nat
  /-- What the machine stopped at last, if it ever did. -/
  fault : Option Fault
deriving DecidableEq, Repr

/-! ### Reading an instruction -/

namespace Memory

/-- The byte at an address, or the obstacle of its absence. -/
def fetchByte (m : Memory) (addr : UInt32) : Except Obstacle UInt8 :=
  match m.byte? addr with
  | some b => .ok b
  | none => .error (.address addr)

/-- The word at an address, or the obstacle of its absence. -/
def fetchWord (m : Memory) (addr : UInt32) : Except Obstacle UInt32 :=
  match m.word? addr with
  | some v => .ok v
  | none => .error (.address addr)

end Memory

/-- The meaning of a code, or the obstacle of its absence. -/
def required {α : Type} : Option α → Except Obstacle α
  | some a => .ok a
  | none => .error .instruction

/-- The obstacle of a wrong code, unless `ok`. -/
def check (ok : Bool) : Except Obstacle Unit :=
  if ok then .ok () else .error .instruction

/-- A base register that may be absent. -/
def fetchBase (code : UInt8) : Except Obstacle (Option Reg) :=
  if code = noRegister then .ok none else some <$> required (Reg.ofCode? code)

/-- The instruction at `pc`, of which `first` is the first byte. -/
def Memory.fetch (m : Memory) (pc : UInt32) (first : UInt8) :
    Except Obstacle (Instruction UInt32) := do
  let code := highNibble first
  let function := lowNibble first
  if code = 0x0 then
    check (function == 0)
    return .halt
  else if code = 0x1 then
    check (function == 0)
    return .nop
  else if code = 0x2 then
    let pair ← m.fetchByte (pc + 1)
    let c ← required (Condition.ofCode? function)
    let src ← required (Reg.ofCode? (highNibble pair))
    let dst ← required (Reg.ofCode? (lowNibble pair))
    return .move c src dst
  else if code = 0x3 then
    let pair ← m.fetchByte (pc + 1)
    check (function == 0 && highNibble pair == noRegister)
    let dst ← required (Reg.ofCode? (lowNibble pair))
    let v ← m.fetchWord (pc + 2)
    return .constant v dst
  else if code = 0x4 then
    let pair ← m.fetchByte (pc + 1)
    check (function == 0)
    let src ← required (Reg.ofCode? (highNibble pair))
    let d ← m.fetchWord (pc + 2)
    let base ← fetchBase (lowNibble pair)
    return .store src d base
  else if code = 0x5 then
    let pair ← m.fetchByte (pc + 1)
    check (function == 0)
    let dst ← required (Reg.ofCode? (highNibble pair))
    let d ← m.fetchWord (pc + 2)
    let base ← fetchBase (lowNibble pair)
    return .load d base dst
  else if code = 0x6 then
    let pair ← m.fetchByte (pc + 1)
    let src ← required (Reg.ofCode? (highNibble pair))
    let dst ← required (Reg.ofCode? (lowNibble pair))
    let op ← required (AluOp.ofCode? function)
    return .alu op src dst
  else if code = 0x7 then
    let c ← required (Condition.ofCode? function)
    let dest ← m.fetchWord (pc + 1)
    return .jump c dest
  else if code = 0x8 then
    check (function == 0)
    let dest ← m.fetchWord (pc + 1)
    return .call dest
  else if code = 0x9 then
    check (function == 0)
    return .ret
  else if code = 0xa then
    let pair ← m.fetchByte (pc + 1)
    check (function == 0)
    let src ← required (Reg.ofCode? (highNibble pair))
    check (lowNibble pair == noRegister)
    return .push src
  else if code = 0xb then
    let pair ← m.fetchByte (pc + 1)
    check (function == 0)
    let dst ← required (Reg.ofCode? (highNibble pair))
    check (lowNibble pair == noRegister)
    return .pop dst
  else .error .instruction

namespace Machine

/-- A machine before its first step: everything is zero but the zero flag. -/
def fresh (memorySize : Nat) : Machine where
  registers := {}
  pc := 0
  flags := { zero := true, sign := false, overflow := false }
  memory := .zeros memorySize
  status := .running
  steps := 0
  fault := none

/-- An image that is larger than the memory. -/
structure LoadError where
  imageSize : Nat
  memorySize : Nat
deriving DecidableEq, Repr

/-- The message for an image that is too large. -/
def LoadError.message (e : LoadError) : String :=
  "program too large for memory: " ++ Numeral.decimal e.imageSize ++ " bytes > " ++
    Numeral.decimal e.memorySize ++ " bytes"

/-- Puts an image into memory at address 0 and changes nothing else. -/
def load (s : Machine) (image : List UInt8) : Except LoadError Machine :=
  if s.memory.size < image.length then
    .error { imageSize := image.length, memorySize := s.memory.size }
  else .ok { s with memory := s.memory.overlay image }

/-! ### Executing an instruction -/

/-- The word in a register. -/
def get (s : Machine) (r : Reg) : UInt32 := s.registers.get r

/-- The machine with `v` in register `r`. -/
def set (s : Machine) (r : Reg) (v : UInt32) : Machine :=
  { s with registers := s.registers.set r v }

/-- The machine with its program counter `n` bytes further on. -/
def advance (s : Machine) (n : UInt32) : Machine := { s with pc := s.pc + n }

/-- The machine stopped by an obstacle at the current instruction. -/
def stop (s : Machine) (o : Obstacle) : Machine :=
  let f : Fault := { pc := s.pc, obstacle := o }
  { s with status := f.status, fault := some f }

/-- The address at displacement `d` from a base. -/
def address (s : Machine) (d : UInt32) (base : Option Reg) : UInt32 :=
  match base with
  | some r => d + s.get r
  | none => d

/-- Stores a word if it lies in the memory, and goes on with `next`. -/
def storeWord (s : Machine) (addr v : UInt32) (next : Machine → Machine) : Machine :=
  if s.memory.hasWord addr then next { s with memory := s.memory.setWord addr v }
  else s.stop (.address addr)

/-- Reads a word if it lies in the memory, and goes on with `next`. -/
def loadWord (s : Machine) (addr : UInt32) (next : Machine → UInt32 → Machine) : Machine :=
  match s.memory.word? addr with
  | some v => next s v
  | none => s.stop (.address addr)

/-- Executes an instruction that stands at the program counter. A pushed stack pointer is the old
one, and a popped stack pointer is the word from the stack. -/
def execute (s : Machine) (i : Instruction UInt32) : Machine :=
  match i with
  | .halt => { s with status := .halted }
  | .nop => s.advance 1
  | .move c src dst =>
    if c.holds s.flags then (s.set dst (s.get src)).advance 2 else s.advance 2
  | .constant v dst => (s.set dst v).advance 6
  | .store src d base => s.storeWord (s.address d base) (s.get src) (·.advance 6)
  | .load d base dst => s.loadWord (s.address d base) fun s v => (s.set dst v).advance 6
  | .alu op src dst =>
    let a := s.get src
    let b := s.get dst
    { s with registers := s.registers.set dst (op.result a b), flags := op.flags a b }.advance 2
  | .jump c dest => if c.holds s.flags then { s with pc := dest } else s.advance 5
  | .call dest =>
    let sp := s.get .esp - 4
    s.storeWord sp (s.pc + 5) fun s => { s.set .esp sp with pc := dest }
  | .ret =>
    let sp := s.get .esp
    s.loadWord sp fun s v => { s.set .esp (sp + 4) with pc := v }
  | .push src =>
    let sp := s.get .esp - 4
    s.storeWord sp (s.get src) fun s => (s.set .esp sp).advance 2
  | .pop dst =>
    let sp := s.get .esp
    s.loadWord sp fun s v => ((s.set .esp (sp + 4)).set dst v).advance 2

/-- Executes one instruction. A machine that does not run stays as it is. A step counts as soon as
the first byte of its instruction is read. -/
def step (s : Machine) : Machine :=
  if s.status = .running then
    match s.memory.byte? s.pc with
    | none => s.stop (.address s.pc)
    | some first =>
      let s := { s with steps := s.steps + 1 }
      match s.memory.fetch s.pc first with
      | .ok i => s.execute i
      | .error o => s.stop o
  else s

end Machine

end RpnY86.Y86
