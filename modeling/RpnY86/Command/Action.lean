import RpnY86.Command.Request
import RpnY86.Compile.Pipeline

/-! # What the commands do

Each command reads an expression or a file and computes; only then it shows or writes its result, so
that a failure on the way leaves no file behind. An image that is also to be run is written before
its run. -/

namespace RpnY86.Command

variable {m : Type → Type} [Monad m]

/-- A computation on a host that may stop without a result. -/
abbrev Action (m : Type → Type) : Type → Type := ExceptT Stop m

/-- What a command runs with. -/
structure Context (m : Type → Type) where
  host : Host m
  tools : Toolkit
  request : Request

/-- Fails. -/
def fail {α : Type} (f : Failure) : Action m α := throw (.failure f)

/-- The result of a file operation, or a failure. -/
def orFail {ε α : Type} (wrap : ε → Failure) (result : Except ε α) : Action m α :=
  match result with
  | .ok a => pure a
  | .error e => fail (wrap e)

/-- The result of a computation, or what interrupted it. -/
def orStop {ε α : Type} (wrap : ε → Failure) (result : Except (Interruption ε) α) : Action m α :=
  match result with
  | .ok a => pure a
  | .error i => throw (.ofInterruption wrap i)

namespace Context

/-- Whether output has no colours. -/
def plain (c : Context m) : Bool :=
  c.tools.plain || c.request.settings.noColor || !c.host.terminal

/-- The colours of output. -/
def palette (c : Context m) : Palette := c.tools.palette c.plain

/-- Writes to standard output. -/
def print (c : Context m) (t : Text) : Action m Unit := c.host.putOut (Text.encode t)

/-- Logs events on standard error, if that is asked for. -/
def log (c : Context m) (es : List Log.Event) : Action m Unit :=
  if c.request.settings.verbose then
    es.forM fun e => do
      let time ← c.host.clock
      let e := e.add "cmd" (.text c.request.command.name)
      let line := c.tools.line c.request.settings.noColor time e
      c.host.putErr (Text.encode (line ++ .ofString "\n"))
  else pure ()

/-! ### Input and output -/

/-- The expression: the arguments with spaces between them, a file, or standard input. -/
def readExpression (c : Context m) : Action m (List Char) := do
  let given := c.request.given
  let words := c.request.words
  let fromFile := (given.paths.lookup .input).isSome
  let fromInput := given.hasSwitch .stdin
  let sources := [!words.isEmpty, fromFile, fromInput].countP id
  if 1 < sources then fail .severalSources
  else if sources = 0 then fail .noExpression
  else
    let bs ←
      if fromInput then do orFail .unreadableInput (← c.host.readInput)
      else if fromFile then do
        orFail (.unreadable (given.path .input)) (← c.host.readFile (given.path .input))
      else pure ([' '.toUInt8].intercalate words)
    let cs := Text.chars (Text.decode bs)
    c.log [{ fields := [("expr", .text (String.ofList cs))], message := "read expression" }]
    return cs

/-- The path for standard output. -/
def standardOutput : Bytes := .ofString "-"

/-- Refuses to write where there is something already. -/
def checkFree (c : Context m) (path : Bytes) : Action m Unit := do
  match ← c.host.examine path with
  | .ok () => fail (.occupied path)
  | .error e => if e.problem = .notFound then pure () else fail (.unexaminable e)

/-- Writes a file, or to standard output. Something that exists is replaced only by force. -/
def writeOutput (c : Context m) (path bs : Bytes) : Action m Unit := do
  if path = standardOutput then c.host.putOut bs
  else
    if !c.request.given.isOn .force then c.checkFree path
    orFail (.unwritable path) (← c.host.writeFile path bs)

/-- What is said about `n` bytes of output. -/
def announcement (c : Context m) (what : String) (n : Nat) (path : Bytes) : Text :=
  c.palette.green (.ofString what) ++ .ofString (" " ++ Numeral.decimal n ++ " bytes -> ") ++
    Text.decode path ++ .ofString "\n"

/-- Says how many bytes were written where, unless they were written to standard output. -/
def announce (c : Context m) (what : String) (n : Nat) (path : Bytes) : Action m Unit :=
  if path = standardOutput then pure () else c.print (c.announcement what n path)

/-- Shows records. -/
def printRecords (c : Context m) (records : List (List (String × Record.Value))) : Action m Unit :=
  c.print ((if c.plain then .ofString (Record.indentedList records) else c.tools.records records) ++
    .ofString "\n")

/-! ### Running -/

/-- The program of an expression. -/
def compile (c : Context m) (cs : List Char) : Action m String := do
  let compilation := Compilation.run c.request.settings.region cs
  c.log compilation.events
  orStop (.compile cs) compilation.result

/-- The image of a program text. -/
def assemble (c : Context m) (source : Text) : Action m Bytes := do
  let assembled := Assembly.assemble source
  c.log assembled.events
  return (← orStop .assembly assembled.image).bytes

/-- The failure that an outcome is, if it is one. A run without an end has no outcome. -/
def outcomeFailure? : Y86.Outcome → Except Stop (Option Failure)
  | .finished => .ok none
  | .faulted f => .ok (some (.fault f))
  | .stepLimit limit pc => .ok (some (.stepLimit limit pc))
  | .endless => .error .endless

/-- Runs an image on a fresh machine. -/
def execute (c : Context m) (image : Bytes) : Action m (Y86.Machine × Option Failure) := do
  let settings := c.request.settings
  let loaded ← orStop .load (Y86.Machine.start (settings.memorySize image.length) image)
  let (s, outcome) := loaded.run (Y86.limitOfInt settings.maxSteps.toInt)
  let failure ← MonadExcept.ofExcept (outcomeFailure? outcome)
  c.log [{
    fields :=
      [("steps", .number s.steps), ("status", .text s.status.name), ("pc", .number s.pc.toNat)]
    message := "simulation finished" }]
  return (s, failure)

/-- Shows the registers of a machine. -/
def printRegisters (c : Context m) (s : Y86.Machine) : Action m Unit :=
  c.print (c.tools.table (registerTable s) ++ .ofString "\n")

/-! ### Commands -/

/-- Where a program goes when no path is given. -/
def defaultProgramPath : Bytes := .ofString "a.ys"

/-- Compiles an expression to a file. -/
def runCompile (c : Context m) : Action m Unit := do
  let cs ← c.readExpression
  let program ← c.compile cs
  let given := c.request.given.path .output
  let path := if given = [] then defaultProgramPath else given
  c.writeOutput path (Text.encode (.ofString program))
  c.announce "compiled" program.utf8ByteSize path

/-- Compiles, assembles and runs an expression, and shows its value. -/
def runRun (c : Context m) : Action m Unit := do
  let cs ← c.readExpression
  let program ← c.compile cs
  let image ← c.assemble (.ofString program)
  let (s, failure) ← c.execute image
  if let some f := failure then fail f
  if c.request.given.isOn .regs then c.printRegisters s
  if s.get .edi ≠ 0 then fail (.program (s.get .edi))
  c.print (.ofString (Numeral.decimal (s.get .eax).toInt32.toInt ++ "\n"))

/-- A path with the extension of an image. The extension is what follows the last point of the last
name, with that point. -/
def imagePath (path : Bytes) : Bytes :=
  let extension := Bytes.ofString ".bin"
  let name := path.reverse.takeWhile (· != '/'.toUInt8)
  if name.contains '.'.toUInt8 then
    ((path.reverse.dropWhile (· != '.'.toUInt8)).drop 1).reverse ++ extension
  else path ++ extension

/-- Assembles a program file, and runs the image if that is asked for. -/
def runAssemble (c : Context m) (input : Bytes) : Action m Unit := do
  let source ← orFail (.unreadable input) (← c.host.readFile input)
  let image ← c.assemble (Text.decode source)
  let given := c.request.given.path .output
  let path := if given = [] then imagePath input else given
  c.writeOutput path image
  c.announce "assembled" image.length path
  if c.request.given.isOn .run then
    let (s, failure) ← c.execute image
    c.printRegisters s
    if let some f := failure then fail f

/-- Puts a text in front of other values, unless it is empty. -/
def withText (name text : String) (others : List (String × Record.Value)) :
    List (String × Record.Value) :=
  if text = "" then others else (name, .text text) :: others

/-- A token as a record. -/
def tokenRecord (t : Token) : List (String × Record.Value) :=
  ("type", .text t.kind.name) :: withText "literal" t.literal [("pos", .number t.pos)]

/-- Shows the tokens of an expression. -/
def runTokens (c : Context m) : Action m Unit := do
  let cs ← c.readExpression
  let ts ← orFail (.compile cs) (lex cs)
  if c.request.given.isOn .json then c.printRecords (ts.map tokenRecord)
  else
    c.print (.ofString ("Tokens (" ++ Numeral.decimal ts.length ++ ")\n" ++
      String.join (ts.map fun t => "  " ++ t.describe ++ "\n")))

/-- An operation as a record. -/
def operationRecord (o : Operation) (e : StackEffect) : List (String × Record.Value) :=
  ("op", .text o.opcode.name) :: withText "value" o.literal
    [("pos", .number o.pos), ("pops", .number e.pops), ("pushes", .number e.pushes)]

/-- A line about an operation, of which `depth` is the depth of the stack behind it. -/
def operationLine (i : Nat) (o : Operation) (e : StackEffect) (depth : Int) : String :=
  "  " ++ Text.padLeft 3 (Numeral.decimal i) ++ "  " ++ Text.padRight 12 o.describe ++ " pops " ++
    Numeral.decimal e.pops ++ "  pushes " ++ Numeral.decimal e.pushes ++ "  depth " ++
    Numeral.decimal depth ++ "\n"

/-- Lines about operations, the first of which is number `i` and starts at depth `depth`. -/
def operationLines (i : Nat) (depth : Int) : List (Operation × StackEffect) → List String
  | [] => []
  | (o, e) :: os =>
    operationLine i o e (depth + e.delta) :: operationLines (i + 1) (depth + e.delta) os

/-- The stack effect of each operation. -/
def effects (os : List Operation) :
    Except (Interruption Failure) (List (Operation × StackEffect)) :=
  os.mapM fun o =>
    match o.opcode.effect with
    | .ok e => .ok (o, e)
    | .error d => .error (.defect d)

/-- Shows the operations of an expression. -/
def runOperations (c : Context m) : Action m Unit := do
  let cs ← c.readExpression
  let ts ← orFail (.compile cs) (lex cs)
  let os ← orFail (.compile cs) (Operation.ofTokens ts)
  let es ← orStop id (effects os)
  if c.request.given.isOn .json then
    c.printRecords (es.map fun (o, e) => operationRecord o e)
  else
    c.print (.ofString ("Instructions (" ++ Numeral.decimal os.length ++ ")\n" ++
      String.join (operationLines 0 0 es)))

/-- Runs the command. -/
def run (c : Context m) : Action m Unit :=
  match c.request.command, c.request.words with
  | .root, _ | .compile, _ => c.runCompile
  | .run, _ => c.runRun
  | .asm, [input] => c.runAssemble input
  | .asm, words => fail (.argumentCount words.length)
  | .tokens, _ => c.runTokens
  | .ir, _ => c.runOperations

end Context

end RpnY86.Command
