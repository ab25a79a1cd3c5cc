import RpnY86.Y86.Run

/-! # Using a machine from outside

Whoever holds a machine can run it, give it images and words, and set its registers and flags. The
program counter and the status are the machine's own. -/

namespace RpnY86.Y86

/-- What can be asked of a machine. -/
inductive Call where
  | load (image : List UInt8)
  | step
  | run (limit : Int)
  | readWord (addr : UInt32)
  | writeWord (addr v : UInt32)
  | setRegister (r : Reg) (v : UInt32)
  | setFlags (f : Flags)
deriving DecidableEq, Repr

/-- What comes back. -/
inductive Answer where
  | done
  /-- The image does not fit, and nothing was loaded. -/
  | tooLarge (e : Machine.LoadError)
  | ran (o : Outcome)
  | read (v : Option UInt32)
  /-- Whether there was room for the word; if not, nothing was written. -/
  | wrote (ok : Bool)
deriving DecidableEq, Repr

namespace Machine

/-- Does what a call asks for. -/
def perform (s : Machine) : Call → Machine × Answer
  | .load image =>
    match s.load image with
    | .ok s => (s, .done)
    | .error e => (s, .tooLarge e)
  | .step => (s.step, .done)
  | .run limit =>
    let (s, outcome) := s.run (limitOfInt limit)
    (s, .ran outcome)
  | .readWord addr => (s, .read (s.memory.word? addr))
  | .writeWord addr v =>
    if s.memory.hasWord addr then ({ s with memory := s.memory.setWord addr v }, .wrote true)
    else (s, .wrote false)
  | .setRegister r v => (s.set r v, .done)
  | .setFlags f => ({ s with flags := f }, .done)

/-- The machine after a sequence of calls. -/
def after (s : Machine) (calls : List Call) : Machine :=
  calls.foldl (fun s c => (s.perform c).1) s

end Machine

end RpnY86.Y86
