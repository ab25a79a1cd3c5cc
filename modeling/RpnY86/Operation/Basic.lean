import RpnY86.Token.Basic

/-! # Operations

What a word of an expression does to the operand stack, and what can go wrong when an expression is
computed. Each fault has a code, which a program leaves behind when it stops. -/

namespace RpnY86

/-- The kind of an operation. Codes without a meaning are kept as they are. -/
inductive Opcode where
  | push
  | plus
  | minus
  | multiply
  | divide
  | dup
  | swap
  | and
  | xor
  | other (code : Int)
deriving DecidableEq, Repr

/-- How many operands an operation takes from the stack and how many it leaves there. -/
structure StackEffect where
  pops : Nat
  pushes : Nat
deriving DecidableEq, Repr

/-- The net change of the stack's depth. -/
def StackEffect.delta (e : StackEffect) : Int := e.pushes - e.pops

namespace Opcode

/-- The opcode with a given code. -/
def ofCode : Int → Opcode
  | 0 => .push
  | 1 => .plus
  | 2 => .minus
  | 3 => .multiply
  | 4 => .divide
  | 5 => .dup
  | 6 => .swap
  | 7 => .and
  | 8 => .xor
  | n => .other n

/-- The name of an opcode. -/
def name : Opcode → String
  | .push => "PUSH"
  | .plus => "PLUS"
  | .minus => "MINUS"
  | .multiply => "MULTIPLY"
  | .divide => "DIVIDE"
  | .dup => "DUP"
  | .swap => "SWAP"
  | .and => "AND"
  | .xor => "XOR"
  | .other code => "Opcode(" ++ Numeral.decimal code ++ ")"

/-- The stack effect of an opcode that has a meaning. `dup` counts as taking one operand and leaving
it twice. -/
def effect? : Opcode → Option StackEffect
  | .push => some ⟨0, 1⟩
  | .dup => some ⟨1, 2⟩
  | .swap => some ⟨2, 2⟩
  | .plus | .minus | .multiply | .divide | .and | .xor => some ⟨2, 1⟩
  | .other _ => none

/-- The operation that a word of the given kind stands for. -/
def ofToken? : TokenKind → Option Opcode
  | .number => some .push
  | .plus => some .plus
  | .minus => some .minus
  | .asterisk => some .multiply
  | .slash => some .divide
  | .dup => some .dup
  | .swap => some .swap
  | .and => some .and
  | .xor => some .xor
  | .eof | .error | .mod | .power | .factorial | .other _ => none

end Opcode

/-- One operation. The literal is the text of the number to push, and empty for all other opcodes.
The position is that of the word. -/
structure Operation where
  opcode : Opcode
  literal : String
  pos : Int
deriving DecidableEq, Repr

/-- An operation as text. -/
def Operation.describe (o : Operation) : String :=
  match o.opcode with
  | .push => o.opcode.name ++ " " ++ o.literal
  | _ => o.opcode.name

/-- Why a computation fails. -/
inductive ProgramFault where
  | divideByZero
  /-- Fewer operands than an operation needs. -/
  | stackError
  /-- More values than the stack holds, or more than one at the end. -/
  | stackTooFull
deriving DecidableEq, Repr

namespace ProgramFault

/-- The code of a fault. -/
def code : ProgramFault → UInt32
  | .divideByZero => 0x01
  | .stackError => 0x02
  | .stackTooFull => 0x04

/-- The fault with a given code. -/
def ofCode? : UInt32 → Option ProgramFault
  | 0x01 => some .divideByZero
  | 0x02 => some .stackError
  | 0x04 => some .stackTooFull
  | _ => none

end ProgramFault

end RpnY86
