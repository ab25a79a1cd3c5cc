import RpnY86.Code.Program
import RpnY86.Command.File
import RpnY86.Y86.Run

/-! # Failures of commands

Everything that ends a command with exit code 1, and how it is reported. An error at a place in an
expression is followed by the expression on one line and a caret below the place. -/

namespace RpnY86.Command

/-- Why a command fails. -/
inductive Failure where
  /-- The command line cannot be read. -/
  | refused (message : Text)
  /-- A command that takes one argument got `n`. -/
  | argumentCount (n : Nat)
  | stackTop (n : Int)
  | stackSize (n : Int)
  | maxSteps (n : Int)
  | severalSources
  | noExpression
  | unreadableInput (e : FileError)
  | unreadable (path : Bytes) (e : FileError)
  /-- There is something at the path, and it must not be replaced. -/
  | occupied (path : Bytes)
  | unexaminable (e : FileError)
  | unwritable (path : Bytes) (e : FileError)
  /-- The expression has an error. -/
  | compile (expression : List Char) (e : CompileError)
  | assembly (e : Assembly.Error)
  | load (e : Y86.Machine.LoadError)
  | fault (f : Y86.Fault)
  | stepLimit (limit : Nat) (pc : UInt32)
  /-- The program left a code in `%edi`. -/
  | program (code : UInt32)
deriving DecidableEq, Repr

/-- The message for a program that left a fault code. -/
def programFaultMessage (code : UInt32) : String :=
  let name := Code.faultName code
  "program fault: " ++ (if name = "" then "unknown fault" else name) ++ " (code 0x" ++
    Numeral.hex code.toNat ++ ")"

/-- The message of a failure. -/
def Failure.message : Failure → Text
  | .refused message => message
  | .argumentCount n => .ofString ("accepts 1 arg(s), received " ++ Numeral.decimal n)
  | .stackTop n =>
    .ofString ("invalid stack top 0x" ++ Numeral.hex n ++ ": must be a positive multiple of 4")
  | .stackSize n => .ofString ("invalid stack size " ++ Numeral.decimal n ++ ": must be positive")
  | .maxSteps n => .ofString ("invalid max steps " ++ Numeral.decimal n)
  | .severalSources => .ofString "multiple input sources specified"
  | .noExpression =>
    .ofString "no expression given: pass it as an argument, with --input, or with --stdin"
  | .unreadableInput e => .ofString "reading stdin: " ++ e.message
  | .unreadable path e =>
    .ofString ("failed to read input file " ++ Text.quotedText (Text.decode path) ++ ": ") ++
      e.message
  | .occupied path => Text.decode path ++ .ofString " already exists (use -f to overwrite)"
  | .unexaminable e => e.message
  | .unwritable path e =>
    .ofString ("failed to write " ++ Text.quotedText (Text.decode path) ++ ": ") ++ e.message
  | .compile _ e => .ofString e.message
  | .assembly e => .ofString "assembly failed: " ++ e.message
  | .load e => .ofString e.message
  | .fault f => .ofString ("simulation stopped: " ++ f.message)
  | .stepLimit limit pc => .ofString ("simulation stopped: " ++ Y86.stepLimitMessage limit pc)
  | .program code => .ofString (programFaultMessage code)

/-- Why a command has no result. -/
inductive Stop where
  | failure (f : Failure)
  | defect (d : Defect)
  /-- It runs a program that never stops. -/
  | endless
deriving DecidableEq, Repr

/-- An interruption stops a command. -/
def Stop.ofInterruption {ε : Type} (wrap : ε → Failure) : Interruption ε → Stop
  | .error e => .failure (wrap e)
  | .defect d => .defect d

/-! ### Reports -/

/-- How text is set off from other text. -/
structure Palette where
  red : Text → Text
  green : Text → Text
  bold : Text → Text

/-- An expression on one line. -/
def oneLine (cs : List Char) : List Char :=
  cs.map fun c => if c = '\n' ∨ c = '\t' ∨ c = '\r' then ' ' else c

/-- The expression and a caret below position `pos`, if the position is in the expression or right
behind it. An empty expression is not shown. -/
def pointAt (p : Palette) (expression : List Char) (pos : Int) : Text :=
  if pos < 0 ∨ expression.isEmpty ∨ (expression.length : Int) < pos then []
  else
    .ofString ("  " ++ String.ofList (oneLine expression) ++ "\n  " ++ Text.spaces pos.toNat) ++
      p.bold (.ofString "^") ++ .ofString "\n"

/-- The report of an error in an expression. -/
def compileReport (p : Palette) (expression : List Char) (e : CompileError) : Text :=
  p.red (.ofString e.message) ++ .ofString "\n" ++ pointAt p expression e.pos

/-- The report of a failure. -/
def Failure.report (p : Palette) : Failure → Text
  | .compile expression e => compileReport p expression e
  | f => p.red f.message ++ .ofString "\n"

end RpnY86.Command
