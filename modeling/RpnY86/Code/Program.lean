import RpnY86.Code.Fragment
import RpnY86.Operation.Basic

/-! # Whole programs

A program is a head, the fragments of its operations, and a tail.

The head sets up the stack pointer and holds the data: the depth of the operand stack, its capacity,
and the fault codes. The tail checks that one value is left, takes it into `%eax` and halts; then
come the handlers, which leave a fault code in `%edi` and halt, and the region of the operand
stack. -/

namespace RpnY86.Code

open Assembly (Directive)

/-! ### The stack region -/

/-- The region of the operand stack: the address above it and the number of its values. -/
structure StackRegion where
  top : Int64
  size : Int64
deriving DecidableEq, Repr

namespace StackRegion

/-- The address above the stack when none is given. -/
def defaultTop : Int64 := 0xffc

/-- The number of values when none is given. -/
def defaultSize : Int64 := 64

/-- The region with given bounds, where zero stands for the default. -/
def ofBounds (top size : Int64) : StackRegion where
  top := if top = 0 then defaultTop else top
  size := if size = 0 then defaultSize else size

/-- The lowest address of the region. -/
def limit (r : StackRegion) : Int64 := r.top - 4 * r.size

/-- Whether the region fits above address 0. -/
def fits (r : StackRegion) : Bool := 0 ≤ r.size && 4 * r.size ≤ r.top

end StackRegion

/-! ### Head and tail -/

/-- A word of data with a label. -/
def dataWord (label gap value note : String) : Line :=
  { label := some label, gap, statement := some (.directive .long value), note }

/-- An indented directive. -/
def directive (d : Directive) (operand : String) : Line :=
  { gap := "\t", statement := some (.directive d operand) }

/-- The label of a fault's handler. -/
def faultLabel : ProgramFault → String
  | .divideByZero => divideByZero
  | .stackError => stackError
  | .stackTooFull => stackTooFull

/-- The label of the handler that leaves a code; empty if there is none. -/
def faultName (code : UInt32) : String := (ProgramFault.ofCode? code).elim "" faultLabel

/-- A fault code as a number in program text. -/
def codeText (f : ProgramFault) : String := "0x" ++ Numeral.paddedHex 2 f.code.toNat

/-- The head of a program, up to the first fragment. -/
def head (size : Int64) : List Line :=
  [.heading "",
   .heading " This program was compiled using rpnc",
   .heading "",
   .heading " Execution begins at address 0",
   directive .pos "0",
   { label := some "init"
     gap := "\t"
     statement := some (.instruction (.constant (.label "Stack") .esp))
     note := "\t# Set up stack pointer" },
   .noted (.constant (.label "Stack") .ebp) "\t# Set up base pointer",
   .noted (goto .always "Main") "\t\t# Execute main program",
   .blank,
   .heading " Data section",
   directive .align "4",
   dataWord "depth" "\t" "0x0" "\t\t# Keeps track of the RPN stack depth",
   dataWord "capacity" "\t" (Numeral.decimal size.toInt)
     "\t# Number of values the stack region holds",
   .blank,
   dataWord "EDIV" "\t\t" (codeText .divideByZero) "\t# Divide by 0 errno",
   dataWord "ESTACK" "\t\t" (codeText .stackError) "\t# Depth of RPN stack too shallow errno",
   dataWord "ESTACKFULL" "\t" (codeText .stackTooFull) "\t# Depth of RPN stack too high errno",
   .blank,
   .heading "",
   .heading " Main function",
   .heading "",
   .mark "Main",
   .comment "The RPN stack is initially empty",
   .noted (.constant (.label "depth") .esi) "\t# %esi holds the address of depth",
   .op (.alu .xor .edx .edx),
   .noted (.store .edx (.literal 0) (some .esi)) "\t# depth = 0",
   .noted (.alu .xor .edi .edi) "\t\t# %edi holds error codes"]

/-- The end of a computation: one value must be left. -/
def footer : List Line :=
  [.blank,
   .heading " Footer section:",
   .blank,
   .comment "Check that exactly one number is left on the stack",
   loadDepth,
   .op (setTo 1 .ecx),
   .op (.alu .sub .ecx .edx),
   .noted (goto .l stackError) ("\t\t# goto " ++ stackError ++ " if depth < 1"),
   .noted (goto .g stackTooFull) ("\t# goto " ++ stackTooFull ++ " if depth > 1"),
   .blank,
   .comment "Pop the result off the stack and return in %eax",
   .op (.pop .eax),
   .op .halt,
   .blank,
   .heading " Error conditions section:",
   .blank]

/-- The label behind the handlers. -/
def exitLabel : String := "set_code_and_exit"

/-- The handler of a fault, whose code is in the cell `cell`, below an explanation. -/
def handler (f : ProgramFault) (cell : String) (explanation : List String) : List Line :=
  let above : List Line := .heading "" :: explanation.map .heading ++ [Line.heading ""]
  let code : List Line :=
    [.mark (faultLabel f),
     .noted (.constant (.label cell) .ebx) ("\t# %ebx holds address of " ++ cell ++ " errno"),
     .op (goto .always exitLabel),
     .blank]
  above ++ code

/-- Leaves the fault code in `%edi` and halts. -/
def faultExit : List Line :=
  [.heading "",
   .heading " Store the error code in %edi and terminate",
   .heading "",
   .mark exitLabel,
   .noted (loadAt .ebx .edi) "\t# %edi holds error codes",
   .noted (.alu .xor .ebx .ebx) "\t\t# clear %ebx",
   .noted (setTo (-1) .esi) "\t# set %esi to -1 to also indicate error",
   .op .halt,
   .blank]

/-- The region of the operand stack, above the code. -/
def stackLines (r : StackRegion) : List Line :=
  [.comment ("The stack region holds " ++ Numeral.decimal r.size.toInt ++
     " values below Stack, above the code"),
   directive .pos ("0x" ++ Numeral.hex r.limit.toInt),
   .mark "StackLimit",
   directive .pos ("0x" ++ Numeral.hex r.top.toInt),
   .mark "Stack"]

/-- The tail of a program, from the last fragment on. -/
def tail (r : StackRegion) : List Line :=
  footer ++
  handler .divideByZero "EDIV" [" Division by 0 was attempted"] ++
  handler .stackError "ESTACK"
    [" Not enough operands on the RPN stack for an operation",
     " (For example: '1 +', or '2 dup + +')"] ++
  handler .stackTooFull "ESTACKFULL"
    [" RPN stack has too many numbers on it at the end of a program",
     " (For example: '3 2 1 +'), or a push found the stack region full"] ++
  faultExit ++
  stackLines r

/-- A program text around a given body. -/
def program (body : String) (r : StackRegion) : String :=
  render (head r.size) ++ body ++ render (tail r)

end RpnY86.Code
