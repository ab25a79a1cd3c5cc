import RpnY86.Code.Line
import RpnY86.Compile.Error

/-! # Code of the operations

Each operation becomes a fragment: a guard that the stack holds its operands, a guard that it has
room for the results, the operation itself, and an update of the depth.

Register `%esi` holds the address of the depth, behind which lies the capacity. Register `%edi`
holds the fault code, zero as long as there is none. The others carry nothing from one fragment to
the next.

Multiplication adds repeatedly, as often as the smaller magnitude says. Division takes away the
largest doubling of the divisor that still fits, again and again. Both keep magnitudes negated, so
that the least integer is like any other. -/

namespace RpnY86.Code

open Y86 (AluOp Condition Instruction Reg)

/-! ### Names -/

/-- The handler of a division by zero. -/
def divideByZero : String := "divide_by_zero"

/-- The handler of a missing operand. -/
def stackError : String := "stack_error"

/-- The handler of a full stack. -/
def stackTooFull : String := "stack_too_full"

/-- A label that belongs to the fragment with number `n`. -/
def localLabel (name : String) (n : Int) : String := name ++ "_" ++ Numeral.decimal n

/-- The distance from the depth to the capacity. -/
def capacityOffset : Int := 4

/-! ### Short forms -/

/-- Puts a number into a register. -/
def setTo (n : Int) (dst : Reg) : Instruction Ref := .constant (.literal n) dst

/-- Copies a register. -/
def copy (src dst : Reg) : Instruction Ref := .move .always src dst

/-- Goes to a label if a condition holds. -/
def goto (c : Condition) (label : String) : Instruction Ref := .jump c (.label label)

/-- Loads the word at which a register points. -/
def loadAt (base dst : Reg) : Instruction Ref := .load (.literal 0) (some base) dst

/-- Loads the depth into `%edx`. -/
def loadDepth : Line := .noted (loadAt .esi .edx) "\t# %edx = depth"

/-! ### Guards -/

/-- Goes to the handler of a missing operand unless the depth is at least `n`. -/
def requireDepth (n : Int) : List Line :=
  if n ≤ 0 then []
  else
    let count := Numeral.decimal n
    let noun := if n = 1 then "argument" else "arguments"
    [.comment ("ensure there are " ++ count ++ " " ++ noun ++ " on the stack"),
     loadDepth,
     .op (setTo n .ecx),
     .op (.alu .sub .ecx .edx),
     .noted (goto .l stackError) ("\t\t# goto " ++ stackError ++ " if depth < " ++ count)]

/-- Goes to the handler of a full stack unless there is room for `n` more values. The sum of depth
and `n` is compared with the capacity without being formed. -/
def requireRoom (n : Int) : List Line :=
  if n ≤ 0 then []
  else
    let count := Numeral.decimal n
    let difference : List Line :=
      [.comment ("ensure the stack has room for " ++ count ++ " more"),
       loadDepth,
       .noted (.load (.literal capacityOffset) (some .esi) .ecx) "\t# %ecx = capacity",
       .op (.alu .sub .ecx .edx)]
    let more : List Line :=
      if 1 < n then [.op (setTo (n - 1) .ecx), .op (.alu .add .ecx .edx)] else []
    let note := "\t# goto " ++ stackTooFull ++ " if depth + " ++ count ++ " > capacity"
    difference ++ more ++ [Line.noted (goto .ge stackTooFull) note]

/-- The opposite of a number of 64 bits, which is its own opposite if it is the least. -/
def opposite (n : Int) : Int := (-(Int64.ofInt n)).toInt

/-- Adds a number to the depth. -/
def adjustDepth (delta : Int) : List Line :=
  if delta = 0 then []
  else
    let what :=
      if 0 < delta then "increment stack depth by " ++ Numeral.decimal delta
      else "decrement stack depth by " ++ Numeral.decimal (opposite delta)
    [.blank,
     .comment what,
     loadDepth,
     .op (setTo delta .ecx),
     .op (.alu .add .ecx .edx),
     .noted (.store .edx (.literal 0) (some .esi)) "\t# store depth"]

/-! ### Signs -/

/-- Replaces a register by its negation, by way of another register. -/
def negate (r tmp : Reg) : List Line :=
  [.op (.alu .xor tmp tmp),
   .noted (.alu .sub r tmp) ("\t# " ++ tmp.name ++ " = -" ++ r.name),
   .op (copy tmp r)]

/-- Replaces a register by the negation of its magnitude, by way of another register. -/
def nonPositive (r tmp : Reg) (skip : String) : List Line :=
  let test : List Line := [.op (.alu .and r r), .noted (goto .le skip) "\t# already non-positive"]
  test ++ negate r tmp ++ [Line.mark skip]

/-! ### Multiplication -/

/-- The label behind the loop of a multiplication. -/
def mulDone (n : Int) : String := localLabel "mul_done" n

/-- Takes the factors from the stack, is done if one is zero, and puts the sign on the stack. -/
def multiplyOperands (n : Int) : List Line :=
  [.blank,
   .noted (.pop .ecx) "\t\t# %ecx = b",
   .noted (.pop .ebx) "\t\t# %ebx = a",
   .noted (.alu .xor .eax .eax) "\t# %eax = product",
   .blank,
   .comment "a zero operand gives zero without looping",
   .op (.alu .and .ecx .ecx),
   .op (goto .e (mulDone n)),
   .op (.alu .and .ebx .ebx),
   .op (goto .e (mulDone n)),
   .blank,
   .comment "remember the sign of the result",
   .op (copy .ebx .edx),
   .noted (.alu .xor .ecx .edx) "\t# sign bit of %edx set if signs differ",
   .op (.push .edx),
   .blank,
   .comment "work on negated magnitudes"]

/-- Puts the factor of smaller magnitude into `%ecx`, and adds the other as often as it says. Then
the sign is taken from the stack. -/
def multiplyLoop (n : Int) : List Line :=
  let loop := localLabel "mul_loop" n
  let ordered := localLabel "mul_ordered" n
  [.blank,
   .comment "count the smaller magnitude up to zero in %ecx",
   .op (copy .ecx .edx),
   .noted (.alu .sub .ebx .edx) "\t# %edx = |a| - |b|",
   .op (goto .ge ordered),
   .op (copy .ebx .edx),
   .op (copy .ecx .ebx),
   .op (copy .edx .ecx),
   .mark ordered,
   .mark loop,
   .noted (.alu .add .ebx .eax) "\t# product -= |addend|",
   .op (setTo 1 .edx),
   .noted (.alu .add .edx .ecx) "\t# counter++",
   .op (goto .ne loop),
   .blank,
   .comment "the product is -|a*b|, negate it when the signs agree",
   .op (.pop .edx),
   .op (.alu .and .edx .edx),
   .op (goto .l (mulDone n))]

/-- Puts the result of a multiplication or division on the stack. -/
def pushResult (done : String) : List Line := [.mark done, .op (.push .eax)]

/-- Replaces the two upper values of the stack by their product. -/
def multiply (n : Int) : List Line :=
  multiplyOperands n ++
  nonPositive .ebx .edx (localLabel "mul_neg_a" n) ++
  nonPositive .ecx .edx (localLabel "mul_neg_b" n) ++
  multiplyLoop n ++
  negate .eax .edx ++
  pushResult (mulDone n)

/-! ### Division -/

/-- The label behind the loop of a division. -/
def divDone (n : Int) : String := localLabel "div_done" n

/-- Takes dividend and divisor from the stack, unless the divisor is zero, is done if the dividend
is zero, and puts the sign on the stack. -/
def divideOperands (n : Int) : List Line :=
  [.blank,
   .comment "refuse to divide by zero",
   .noted (loadAt .esp .ecx) "\t# %ecx = b, left on the stack",
   .op (.alu .and .ecx .ecx),
   .op (goto .e divideByZero),
   .blank,
   .noted (.pop .ecx) "\t\t# %ecx = b",
   .noted (.pop .ebx) "\t\t# %ebx = a",
   .noted (.alu .xor .eax .eax) "\t# %eax = quotient",
   .op (.alu .and .ebx .ebx),
   .noted (goto .e (divDone n)) "\t# 0 / b = 0",
   .blank,
   .comment "remember the sign of the result",
   .op (copy .ebx .edx),
   .noted (.alu .xor .ecx .edx) "\t# sign bit of %edx set if signs differ",
   .op (.push .edx),
   .blank,
   .comment "work on negated magnitudes, the remainder in %ebx"]

/-- Takes the largest fitting doubling of the divisor from the remainder until the remainder is
smaller than the divisor. Then the sign is taken from the stack. -/
def divideLoop (n : Int) : List Line :=
  let loop := localLabel "div_loop" n
  let double := localLabel "div_double" n
  let take := localLabel "div_take" n
  let sign := localLabel "div_sign" n
  [.noted (.push .ecx) "\t\t# keep -|b| on the stack",
   .mark loop,
   .noted (loadAt .esp .ecx) "\t# %ecx = -|b|",
   .op (copy .ebx .edx),
   .op (.alu .sub .ecx .edx),
   .noted (goto .g sign) "\t# stop once remainder < |b|",
   .noted (setTo 1 .edx) "\t# %ecx = -|b| * %edx",
   .mark double,
   .op (copy .ecx .ebp),
   .op (.alu .add .ebp .ebp),
   .op (.alu .and .ebp .ebp),
   .noted (goto .ge take) "\t# doubling wrapped",
   .op (.alu .sub .ebx .ebp),
   .noted (goto .l take) "\t# doubling exceeds the remainder",
   .op (.alu .add .ebx .ebp),
   .op (copy .ebp .ecx),
   .op (.alu .add .edx .edx),
   .op (goto .always double),
   .mark take,
   .noted (.alu .sub .ecx .ebx) "\t# remainder moves toward zero",
   .noted (.alu .add .edx .eax) "\t# quotient += multiple",
   .op (goto .always loop),
   .mark sign,
   .noted (.pop .edx) "\t\t# drop -|b|",
   .op (.pop .edx),
   .op (.alu .and .edx .edx),
   .op (goto .ge (divDone n))]

/-- Replaces the two upper values of the stack by their quotient, truncated toward zero. A zero
divisor is noticed before either value is taken from the stack. -/
def divide (n : Int) : List Line :=
  divideOperands n ++
  nonPositive .ebx .edx (localLabel "div_neg_a" n) ++
  nonPositive .ecx .edx (localLabel "div_neg_b" n) ++
  divideLoop n ++
  negate .eax .edx ++
  pushResult (divDone n)

/-! ### Single instructions -/

/-- The machine operation that an opcode is, if it is a single one. -/
def aluOp? : Opcode → Option AluOp
  | .plus => some .add
  | .minus => some .sub
  | .and => some .and
  | .xor => some .xor
  | _ => none

/-- The mnemonic of an opcode that is a single machine operation. -/
def aluMnemonic (o : Opcode) : Except Defect String :=
  match aluOp? o with
  | some op => .ok (Assembly.Mnemonic.alu op).name
  | none => .error (.notArithmetic o)

/-- The sign for a machine operation. -/
def aluSign : AluOp → String
  | .add => "+"
  | .sub => "-"
  | .and => "&"
  | .xor => "^"

/-- The sign for an opcode, and a question mark if it is no single machine operation. -/
def aluSymbol (o : Opcode) : String := (aluOp? o).elim "?" aluSign

/-- Replaces the two upper values of the stack by the result of a machine operation. -/
def arithmetic (op : AluOp) : List Line :=
  [.blank,
   .noted (.pop .ecx) "\t\t# %ecx = b",
   .noted (.pop .ebx) "\t\t# %ebx = a",
   .noted (.alu op .ecx .ebx) ("\t# %ebx = a " ++ aluSign op ++ " b"),
   .op (.push .ebx)]

/-! ### Stack operations -/

/-- Pushes a number. -/
def pushNumber (v : Int) : List Line :=
  [.comment ("push the number " ++ Numeral.decimal v ++ " onto the stack"),
   .op (setTo v .ecx),
   .op (.push .ecx)]

/-- Pushes the upper value of the stack once more. -/
def duplicate : List Line :=
  [.blank,
   .op (.pop .ebx),
   .op (.push .ebx),
   .op (.push .ebx)]

/-- Exchanges the two upper values of the stack. -/
def exchange : List Line :=
  [.blank,
   .noted (.pop .ecx) "\t\t# %ecx = y (top)",
   .noted (.pop .ebx) "\t\t# %ebx = x",
   .op (.push .ecx),
   .op (.push .ebx)]

/-! ### Fragments -/

/-- An operation without code. -/
def noTemplate (o : Operation) : CompileError where
  kind := .codeGeneration
  pos := o.pos
  detail := .noTemplate o.opcode

/-- The number that an operation pushes. -/
def literalValue (o : Operation) : Except CompileError Int :=
  match Numeral.readSigned .plain 32 o.literal.toList with
  | .ok v => .ok v
  | .error e => .error
    { kind := .codeGeneration
      pos := o.pos
      token := o.literal
      detail := .literalWidth
      cause := some (.literal o.literal e) }

/-- The part of a fragment that does what the operation says. -/
def core (n : Nat) (o : Operation) : Except CompileError (List Line) :=
  match o.opcode with
  | .push => pushNumber <$> literalValue o
  | .dup => .ok duplicate
  | .swap => .ok exchange
  | .plus => .ok (arithmetic .add)
  | .minus => .ok (arithmetic .sub)
  | .and => .ok (arithmetic .and)
  | .xor => .ok (arithmetic .xor)
  | .multiply => .ok (multiply n)
  | .divide => .ok (divide n)
  | .other _ => .error (noTemplate o)

/-- The first lines of a fragment. -/
def opening (o : Opcode) : List Line := [.blank, .comment ("[" ++ o.name ++ "]")]

/-- The fragment of an operation. Its labels, if it has any, end in `n`. -/
def fragment (n : Nat) (o : Operation) : Except CompileError (List Line) :=
  match o.opcode.effect? with
  | none => .error (noTemplate o)
  | some effect => do
    let code ← core n o
    return opening o.opcode ++ requireDepth effect.pops ++ requireRoom effect.delta ++ code ++
      adjustDepth effect.delta

/-- The number of label suffixes that an operation uses up. -/
def suffixes : Opcode → Nat
  | .multiply | .divide => 1
  | _ => 0

/-- The fragments of operations, in order, with label suffixes from `n` on. -/
def fragmentsFrom (n : Nat) : List Operation → Except CompileError (List (List Line))
  | [] => .ok []
  | o :: os => do
    let code ← fragment n o
    let rest ← fragmentsFrom (n + suffixes o.opcode) os
    return code :: rest

/-- The fragments of operations, in order. -/
def fragments (os : List Operation) : Except CompileError (List (List Line)) := fragmentsFrom 0 os

/-- The text of the fragments of operations. -/
def body (os : List Operation) : Except CompileError String := do
  let fs ← fragments os
  return render fs.flatten

end RpnY86.Code
