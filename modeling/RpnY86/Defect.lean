import RpnY86.Operation.Basic

/-! # Defects

A defect stops the program in the middle of its work. It is not an answer about the input, as an
error is: it says that a function was called outside its domain. -/

namespace RpnY86

/-- A call outside a function's domain. -/
inductive Defect where
  /-- The stack effect of an opcode that has none. -/
  | noStackEffect (opcode : Opcode)
  /-- The machine instruction of an opcode that is not a single one. -/
  | notArithmetic (opcode : Opcode)
  /-- Padding of negative length. -/
  | negativePadding
  /-- A memory that is larger than any can be. -/
  | memorySize
  /-- The text of an error of unknown kind. -/
  | unknownErrorKind
deriving DecidableEq, Repr

/-- What is shown of a defect. -/
def Defect.message : Defect → String
  | .noStackEffect opcode => "compiler: no stack effect for " ++ opcode.name
  | .notArithmetic opcode => "compiler: " ++ opcode.name ++ " is not an ALU opcode"
  | .negativePadding | .memorySize => "runtime error: makeslice: len out of range"
  | .unknownErrorKind => "runtime error: invalid memory address or nil pointer dereference"

/-- Why a computation has no result: an error about its input, or a defect. -/
inductive Interruption (ε : Type) where
  | error (e : ε)
  | defect (d : Defect)
deriving DecidableEq, Repr

/-- The same interruption with its error seen as another type's. -/
def Interruption.map {ε δ : Type} (f : ε → δ) : Interruption ε → Interruption δ
  | .error e => .error (f e)
  | .defect d => .defect d

/-- The stack effect of an opcode. -/
def Opcode.effect (o : Opcode) : Except Defect StackEffect :=
  match o.effect? with
  | some e => .ok e
  | none => .error (.noStackEffect o)

end RpnY86
