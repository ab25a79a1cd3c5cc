import RpnY86.Defect
import RpnY86.Y86.Machine

/-! # Starting and running a machine

A machine is made with a memory of a given size, and an image is loaded into it.

`runFor n` makes at most `n` steps and ends early when the machine stops. A run without a limit
makes as many steps as there are states of registers, program counter, flags and memory: what a
machine does depends on these alone, so a machine that still runs then has been in one of them twice
and never stops. -/

namespace RpnY86.Y86

/-- How a run ended. -/
inductive Outcome where
  /-- The machine stopped and has no fault. -/
  | finished
  /-- The machine stopped and has a fault, from this run or an earlier one. -/
  | faulted (f : Fault)
  /-- The machine still ran after `limit` steps, and stands at `pc`. -/
  | stepLimit (limit : Nat) (pc : UInt32)
  /-- The machine never stops. -/
  | endless
deriving DecidableEq, Repr

/-- The message of a run that hit its limit. -/
def stepLimitMessage (limit : Nat) (pc : UInt32) : String :=
  "step limit reached after " ++ Numeral.decimal limit ++ " instructions (pc 0x" ++
    Numeral.hex pc.toNat ++ ")"

/-- The limit that an integer stands for: none if it is not positive. -/
def limitOfInt (n : Int) : Option Nat := if 0 < n then some n.toNat else none

namespace Machine

/-- A machine before its first step, with a memory of a size that is possible. -/
def create (memorySize : Nat) : Except Defect Machine :=
  if memorySize ≤ Memory.maxSize then .ok (fresh memorySize) else .error .memorySize

/-- A machine with an image in a memory of a given size. -/
def start (memorySize : Nat) (image : List UInt8) : Except (Interruption LoadError) Machine := do
  let s ← (create memorySize).mapError .defect
  (s.load image).mapError .error

/-- Makes at most `n` steps. -/
def runFor : Nat → Machine → Machine
  | 0, s => s
  | n + 1, s => if s.status = .running then runFor n s.step else s

/-- Makes at most `n` times `size` steps, `size` at a time. -/
def runBlocks (size : Nat) : Nat → Machine → Machine
  | 0, s => s
  | n + 1, s => if s.status = .running then runBlocks size n (s.runFor size) else s

/-- The number of bits in the state that decides what a machine does: eight registers, the program
counter, three flags and the memory. -/
def stateBits (s : Machine) : Nat := 8 * 32 + 32 + 3 + 8 * s.memory.size

/-- The steps of a run without a limit are made in blocks of two to this power. -/
def blockBits : Nat := 60

/-- Runs until the machine stops, or long enough to know that it does not. The number of blocks is
not worked out before the first block is over. -/
def runOut (s : Machine) : Machine :=
  let s := s.runFor (1 <<< blockBits)
  if s.status = .running then s.runBlocks (1 <<< blockBits) (1 <<< (s.stateBits - blockBits)) else s

/-- The outcome of a run that ended with the machine stopped. -/
def verdict (s : Machine) : Outcome :=
  match s.fault with
  | some f => .faulted f
  | none => .finished

/-- Runs with at most `limit` steps, or without a limit. -/
def run (s : Machine) (limit : Option Nat) : Machine × Outcome :=
  match limit with
  | some n =>
    let s := s.runFor n
    (s, if s.status = .running then .stepLimit n s.pc else s.verdict)
  | none =>
    let s := s.runOut
    (s, if s.status = .running then .endless else s.verdict)

end Machine

end RpnY86.Y86
