import RpnY86.Command.Invocation
import RpnY86.Command.Standard

/-! # The program

The command line on a real system. -/

namespace RpnY86.Command

/-- The system's words for an error. -/
def systemText : IO.Error → String
  | .inappropriateType _ _ details | .invalidArgument _ _ details
  | .permissionDenied _ _ details | .resourceExhausted _ _ details => details.decapitalize
  | .otherError _ details => details.decapitalize
  | e => toString e

/-- The problem behind an error of the system. -/
def FileProblem.ofError : IO.Error → FileProblem
  | .noFileOrDirectory .. => .notFound
  | e =>
    let text := systemText e
    ([notDirectory, isDirectory, nameTooLong, invalidName].find? (·.message == text)).getD
      (.other text)

/-- The result of a file operation on a real system. -/
def attempt {α : Type} (action : FileAction) (path : Bytes) (work : IO α) :
    IO (Except FileError α) := do
  try
    return .ok (← work)
  catch e => return .error { action, path, problem := .ofError e }

/-- Everything that a stream still holds. -/
partial def readAll (stream : IO.FS.Stream) (done : ByteArray) : IO ByteArray := do
  let block ← stream.read 65536
  if block.isEmpty then return done else readAll stream (done ++ block)

/-- A path as the system takes it. Paths that are not UTF-8 cannot be given here. -/
def systemPath (path : Bytes) : String := Text.toString (Text.decode path)

/-- A number in at least two digits. -/
def twoDigits (n : Nat) : String := String.ofList (Numeral.paddedDigits 10 2 n)

/-- The time of day after a number of seconds: hours from one to twelve, and minutes. -/
def timeOfDay (seconds : Nat) : String :=
  let hour := seconds / 3600 % 24
  Numeral.decimal ((hour + 11) % 12 + 1 : Nat) ++ ":" ++ twoDigits (seconds / 60 % 60) ++
    (if hour < 12 then "AM" else "PM")

/-- The number that a word at the start of a line is followed by. -/
def numberBehind? (word : String) (line : String) : Option Nat :=
  match line.splitOn " " with
  | first :: number :: _ => if first = word then number.toNat? else none
  | _ => none

/-- The time of day by the system's clock: when the system was started, and how long it has run. -/
def systemTime : IO String := do
  try
    let stat ← IO.FS.readFile "/proc/stat"
    let uptime ← IO.FS.readFile "/proc/uptime"
    let started := (stat.splitOn "\n").findSome? (numberBehind? "btime")
    let running := ((uptime.splitOn ".").head?.bind String.toNat?)
    return timeOfDay (started.getD 0 + running.getD 0)
  catch _ => return timeOfDay 0

/-- The host of a real system. -/
def systemHost : IO (Host IO) := do
  let input ← IO.getStdin
  let output ← IO.getStdout
  let errors ← IO.getStderr
  return {
    readFile := fun path => do
      match ← attempt .opening path (IO.FS.Handle.mk (systemPath path) .read) with
      | .error e => return .error e
      | .ok handle => attempt .reading path do return (← handle.readBinToEnd).toList
    examine := fun path =>
      attempt .examining path do
        let _ ← IO.FS.Handle.mk (systemPath path) .read
    writeFile := fun path bs =>
      attempt .opening path (IO.FS.writeBinFile (systemPath path) bs.toByteArray)
    readInput :=
      attempt .reading (.ofString "/dev/stdin") do return (← readAll input .empty).toList
    terminal := ← output.isTty
    putOut := fun bs => do
      output.write bs.toByteArray
      output.flush
    putErr := fun bs => do
      errors.write bs.toByteArray
      errors.flush
    clock := systemTime }

/-- The value of a variable. -/
def systemVariable (name : String) : IO (Option (Bytes × Bytes)) := do
  return (← IO.getEnv name).map fun value => (.ofString name, .ofString value)

/-- The variables that commands look at. -/
def systemEnvironment : IO Environment := Flag.shared.filterMapM (systemVariable ·.variable)

/-- Whether the system asks for output without colours. -/
def systemPlain (host : Host IO) : IO Bool := do
  return !host.terminal || ((← IO.getEnv "NO_COLOR").getD "") ≠ "" ||
    (← IO.getEnv "TERM") = some "dumb"

/-- Waits for what never comes. -/
partial def waitForever : IO UInt32 := do
  IO.sleep 1000
  waitForever

end RpnY86.Command

open RpnY86.Command in
/-- Runs the command line that the program was started with. -/
def main (args : List String) : IO UInt32 := do
  let host ← systemHost
  let tools := Toolkit.standard (← systemPlain host)
  match ← runCommand host tools (args.map Bytes.ofString) (← systemEnvironment) with
  | .exit code => return code
  | .crash d =>
    IO.eprintln d.message
    return 2
  | .never => waitForever
