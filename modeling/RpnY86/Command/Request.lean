import RpnY86.Command.Failure
import RpnY86.Record

/-! # What a command line asks for

Command lines are not read here: a `Toolkit` reads them, and it finds a `Request`, a call for help,
or something that it refuses. It also sets tables and lines of the log, and gives text its colours.
What the commands do with a request is the same for every toolkit. -/

namespace RpnY86.Command

/-- The commands. `root` is what runs when no command is named. -/
inductive Subcommand where
  | root
  | compile
  | run
  | asm
  | tokens
  | ir
deriving DecidableEq, Repr

/-- The name of a command. -/
def Subcommand.name : Subcommand → String
  | .root => "rpnc"
  | .compile => "compile"
  | .run => "run"
  | .asm => "asm"
  | .tokens => "tokens"
  | .ir => "ir"

/-! ### Requests -/

/-- A switch of a command. -/
inductive Switch where
  | stdin
  | force
  | regs
  | run
  | json
deriving DecidableEq, Repr

/-- A path that is given to a command. -/
inductive PathFlag where
  | input
  | output
deriving DecidableEq, Repr

/-- The flags given to a command with their values, the latest first. -/
structure Given where
  switches : List (Switch × Bool) := []
  paths : List (PathFlag × Bytes) := []
deriving DecidableEq, Repr

namespace Given

/-- Whether a switch is given and on. -/
def isOn (g : Given) (s : Switch) : Bool := (g.switches.lookup s).getD false

/-- Whether a switch is given, on or off. -/
def hasSwitch (g : Given) (s : Switch) : Bool := (g.switches.lookup s).isSome

/-- The path given with a flag, empty if there is none. -/
def path (g : Given) (p : PathFlag) : Bytes := (g.paths.lookup p).getD []

end Given

/-- The settings that all commands share. -/
structure Settings where
  stackTop : Int64
  stackSize : Int64
  maxSteps : Int64
  verbose : Bool
  noColor : Bool
deriving DecidableEq, Repr

namespace Settings

/-- What is wrong with the settings, if anything is. -/
def failure? (s : Settings) : Option Failure :=
  if s.stackTop.toInt ≤ 0 ∨ s.stackTop.toInt % 4 ≠ 0 then some (.stackTop s.stackTop.toInt)
  else if s.stackSize.toInt ≤ 0 then some (.stackSize s.stackSize.toInt)
  else if s.maxSteps.toInt < 0 then some (.maxSteps s.maxSteps.toInt)
  else none

/-- The stack region of compiled programs. -/
def region (s : Settings) : Code.StackRegion := .ofBounds s.stackTop s.stackSize

/-- A memory size that is enough for the stack and for an image of `n` bytes. -/
def memorySize (s : Settings) (n : Nat) : Nat :=
  max (max Y86.Memory.defaultSize s.stackTop.toInt.toNat) n

end Settings

/-- A command with its flags, its settings and its other arguments. -/
structure Request where
  command : Subcommand
  given : Given
  settings : Settings
  words : List Bytes
deriving DecidableEq, Repr

/-- What is wrong with the number of arguments, if anything is. -/
def Request.countFailure? (q : Request) : Option Failure :=
  if q.command = .asm ∧ q.words.length ≠ 1 then some (.argumentCount q.words.length) else none

/-- What a command line comes to. -/
inductive Reading where
  /-- It cannot be read. -/
  | refused (message : Text)
  /-- It asks for help or the like, which is shown; no command runs. -/
  | usage (out err : Bytes)
  | request (q : Request)
deriving DecidableEq, Repr

/-! ### Tables -/

/-- A table. The rows come in groups with a line between them. -/
structure Table where
  title : String
  header : List String
  groups : List (List (List String))
  footer : List String
deriving DecidableEq, Repr

/-- A word in eight hexadecimal digits. -/
def wordText (v : UInt32) : String := "0x" ++ Numeral.paddedHex 8 v.toNat

/-- The table of a machine's registers, program counter, flags and status. -/
def registerTable (s : Y86.Machine) : Table where
  title := "Registers"
  header := ["Register", "Hex", "Decimal"]
  groups :=
    [Y86.Reg.all.map fun r => [r.name, wordText (s.get r), Numeral.decimal (s.get r).toInt32.toInt],
      [["pc", wordText s.pc, ""], ["flags", s.flags.describe, ""]]]
  footer := ["status", s.status.name, Numeral.decimal s.steps ++ " steps"]

/-! ### Toolkits -/

/-- Environment variables. -/
abbrev Environment : Type := List (Bytes × Bytes)

/-- What the commands leave to others: reading command lines, and how output is set. -/
structure Toolkit where
  /-- Reads a command line in an environment. -/
  read : List Bytes → Environment → Reading
  /-- Whether there are no colours from the start. -/
  plain : Bool
  /-- The colours; with `plain`, they have been turned off. -/
  palette : (plain : Bool) → Palette
  /-- A table as text. -/
  table : Table → Text
  /-- Records as coloured text. -/
  records : List (List (String × Record.Value)) → Text
  /-- An event as a line of the log. -/
  line : (noColor : Bool) → (time : String) → Log.Event → Text

end RpnY86.Command
