import RpnY86.Command.Action
import RpnY86.Command.FileTree

/-! # Running a command line

The command line is read first, then the arguments are counted, then the settings are checked, and
then the command does its work. -/

namespace RpnY86.Command

variable {m : Type → Type} [Monad m]

/-- Checks the settings and runs the command. -/
def Context.start (c : Context m) : Action m Unit := do
  if let some f := c.request.settings.failure? then fail f
  c.run

/-- How a command line ends. -/
inductive Ending where
  | exit (code : UInt32)
  /-- A defect stops the program. -/
  | crash (d : Defect)
  /-- The command line runs a program that never stops. -/
  | never
deriving DecidableEq, Repr

/-- Ends with the result of a command. A failure is reported on standard error. -/
def conclude (host : Host m) (p : Palette) (result : Except Stop Unit) : m Ending := do
  match result with
  | .ok () => return .exit 0
  | .error (.failure f) =>
    host.putErr (Text.encode (f.report p))
    return .exit 1
  | .error (.defect d) => return .crash d
  | .error .endless => return .never

/-- Runs a command line. -/
def runCommand (host : Host m) (tools : Toolkit) (args : List Bytes) (env : Environment) :
    m Ending := do
  match tools.read args env with
  | .refused message =>
    conclude host (tools.palette tools.plain) (.error (.failure (.refused message)))
  | .usage out err =>
    host.putOut out
    host.putErr err
    return .exit 0
  | .request request =>
    match request.countFailure? with
    | some f => conclude host (tools.palette tools.plain) (.error (.failure f))
    | none =>
      let c : Context m := { host, tools, request }
      conclude host c.palette (← c.start.run)

/-! ### On a tree of files -/

/-- A command line, and what it is run with. -/
structure Invocation where
  tools : Toolkit
  args : List Bytes
  env : Environment := []
  /-- What waits on standard input. -/
  input : Except FileError Bytes := .ok []
  /-- Whether standard output is shown to somebody. -/
  terminal : Bool := false
  time : String := "12:00AM"

namespace Invocation

/-- The host that a command line finds. -/
def host (i : Invocation) : Host (StateM World) := World.host i.terminal i.time

/-- Runs a command line on a tree of files. -/
def perform (i : Invocation) (tree : FileTree) : Ending × World :=
  (runCommand i.host i.tools i.args i.env).run { tree, input := i.input }

end Invocation

end RpnY86.Command
