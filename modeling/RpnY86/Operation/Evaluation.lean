import RpnY86.Numeral.Read
import RpnY86.Operation.Basic

/-! # The value of an expression

What a sequence of operations computes, said without a machine. Operands are words of 32 bits on a
stack of a given capacity, the top first. Arithmetic wraps, and division goes toward zero.

An operation first looks whether it finds its operands, then whether the stack has room for what it
adds, and last whether it would divide by zero. At the end one value must be left. -/

namespace RpnY86

/-- A stack of operands, the top first. -/
abbrev OperandStack : Type := List UInt32

/-- An operation that replaces two operands by one. -/
inductive BinaryOp where
  | add
  | sub
  | mul
  | div
  | and
  | xor
deriving DecidableEq, Repr

/-- The result of an operation on `a` and the operand `b` above it. -/
def BinaryOp.result (op : BinaryOp) (a b : UInt32) : Except ProgramFault UInt32 :=
  match op with
  | .add => .ok (a + b)
  | .sub => .ok (a - b)
  | .mul => .ok (a * b)
  | .div => if b = 0 then .error .divideByZero else .ok (a.toInt32 / b.toInt32).toUInt32
  | .and => .ok (a &&& b)
  | .xor => .ok (a ^^^ b)

/-- A step of a computation. -/
inductive Step where
  | number (v : UInt32)
  | binary (op : BinaryOp)
  | dup
  | swap
deriving DecidableEq, Repr

namespace Step

/-- The step that an operation is. An opcode without a meaning is none, and neither is a number that
does not fit in a word. -/
def ofOperation? (o : Operation) : Option Step :=
  match o.opcode with
  | .push =>
    match Numeral.readSigned .plain 32 o.literal.toList with
    | .ok v => some (.number (UInt32.ofInt v))
    | .error _ => none
  | .plus => some (.binary .add)
  | .minus => some (.binary .sub)
  | .multiply => some (.binary .mul)
  | .divide => some (.binary .div)
  | .and => some (.binary .and)
  | .xor => some (.binary .xor)
  | .dup => some .dup
  | .swap => some .swap
  | .other _ => none

/-- Puts a word on the stack, if there is room for it. -/
def push (capacity : Nat) (v : UInt32) (stack : OperandStack) : Except ProgramFault OperandStack :=
  if stack.length < capacity then .ok (v :: stack) else .error .stackTooFull

/-- What a step does to the stack. -/
def apply (capacity : Nat) (stack : OperandStack) (s : Step) : Except ProgramFault OperandStack :=
  match s, stack with
  | .number v, stack => push capacity v stack
  | .dup, a :: stack => push capacity a (a :: stack)
  | .swap, b :: a :: stack => .ok (a :: b :: stack)
  | .binary op, b :: a :: stack => (· :: stack) <$> op.result a b
  | _, _ => .error .stackError

/-- What steps do to the stack, one after the other, up to the first fault. -/
def applyAll (capacity : Nat) (stack : OperandStack) (ss : List Step) :
    Except ProgramFault OperandStack :=
  ss.foldlM (apply capacity) stack

/-- The value that is left at the end. -/
def final : OperandStack → Except ProgramFault UInt32
  | [v] => .ok v
  | [] => .error .stackError
  | _ :: _ :: _ => .error .stackTooFull

/-- The value of a computation. -/
def value (capacity : Nat) (ss : List Step) : Except ProgramFault UInt32 :=
  applyAll capacity [] ss >>= final

theorem push_eq_ok_iff {capacity : Nat} {v : UInt32} {stack stack' : OperandStack} :
    push capacity v stack = .ok stack' ↔ stack.length < capacity ∧ stack' = v :: stack := by
  unfold push
  by_cases h : stack.length < capacity
  · rw [if_pos h]
    exact ⟨fun e => ⟨h, (Except.ok.inj e).symm⟩, fun e => by rw [e.2]⟩
  · rw [if_neg h]
    exact ⟨fun e => (nomatch e), fun e => absurd e.1 h⟩

theorem length_apply_le {capacity : Nat} {stack stack' : OperandStack} {s : Step}
    (h : apply capacity stack s = .ok stack') (hs : stack.length ≤ capacity) :
    stack'.length ≤ capacity := by
  cases s with
  | number v =>
    obtain ⟨hr, rfl⟩ := push_eq_ok_iff.1 h
    exact hr
  | dup =>
    match stack, h with
    | a :: stack, h =>
      obtain ⟨hr, rfl⟩ := push_eq_ok_iff.1 h
      exact hr
  | swap =>
    match stack, h with
    | b :: a :: stack, h =>
      obtain rfl := Except.ok.inj h
      exact hs
  | binary op =>
    match stack, h with
    | b :: a :: stack, h =>
      change (· :: stack) <$> op.result a b = .ok stack' at h
      cases hr : op.result a b with
      | error f =>
        rw [hr] at h
        exact nomatch h
      | ok v =>
        rw [hr] at h
        obtain rfl := Except.ok.inj h
        exact Nat.le_of_succ_le hs

end Step

end RpnY86
