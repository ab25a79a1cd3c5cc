/-! # Condition flags

An arithmetic or logical operation leaves three flags: the result is zero, the result is negative,
the result does not fit in a signed word. Conditions are read off the flags. -/

namespace RpnY86.Y86

/-- The condition flags. -/
structure Flags where
  zero : Bool
  sign : Bool
  overflow : Bool
deriving DecidableEq, Repr

/-- A flag as a digit. -/
def flagDigit (b : Bool) : String := if b then "1" else "0"

/-- The flags as text. -/
def Flags.describe (f : Flags) : String :=
  "ZF=" ++ flagDigit f.zero ++ " SF=" ++ flagDigit f.sign ++ " OF=" ++ flagDigit f.overflow

/-- A condition on the flags. -/
inductive Condition where
  | always
  | le
  | l
  | e
  | ne
  | ge
  | g
deriving DecidableEq, Repr

namespace Condition

/-- The code of a condition in an instruction. -/
def code : Condition → UInt8
  | .always => 0
  | .le => 1
  | .l => 2
  | .e => 3
  | .ne => 4
  | .ge => 5
  | .g => 6

/-- The condition with a given code. -/
def ofCode? : UInt8 → Option Condition
  | 0 => some .always
  | 1 => some .le
  | 2 => some .l
  | 3 => some .e
  | 4 => some .ne
  | 5 => some .ge
  | 6 => some .g
  | _ => none

/-- Whether a condition holds. -/
def holds (f : Flags) : Condition → Bool
  | .always => true
  | .le => (f.sign != f.overflow) || f.zero
  | .l => f.sign != f.overflow
  | .e => f.zero
  | .ne => !f.zero
  | .ge => f.sign == f.overflow
  | .g => f.sign == f.overflow && !f.zero

end Condition

/-- An arithmetic or logical operation. -/
inductive AluOp where
  | add
  | sub
  | and
  | xor
deriving DecidableEq, Repr

/-- Whether a word is negative as a signed number. -/
def isNegative (v : UInt32) : Bool := v.toInt32 < 0

namespace AluOp

/-- The code of an operation in an instruction. -/
def code : AluOp → UInt8
  | .add => 0
  | .sub => 1
  | .and => 2
  | .xor => 3

/-- The operation with a given code. -/
def ofCode? : UInt8 → Option AluOp
  | 0 => some .add
  | 1 => some .sub
  | 2 => some .and
  | 3 => some .xor
  | _ => none

/-- The result of an operation on source `a` and destination `b`. -/
def result (op : AluOp) (a b : UInt32) : UInt32 :=
  match op with
  | .add => b + a
  | .sub => b - a
  | .and => b &&& a
  | .xor => b ^^^ a

/-- Whether the signed result of an operation does not fit in a word. -/
def overflows (op : AluOp) (a b : UInt32) : Bool :=
  let negative := isNegative (op.result a b)
  match op with
  | .add => isNegative a == isNegative b && negative != isNegative b
  | .sub => isNegative a != isNegative b && negative != isNegative b
  | .and | .xor => false

/-- The flags that an operation leaves. -/
def flags (op : AluOp) (a b : UInt32) : Flags where
  zero := op.result a b == 0
  sign := isNegative (op.result a b)
  overflow := op.overflows a b

end AluOp

end RpnY86.Y86
