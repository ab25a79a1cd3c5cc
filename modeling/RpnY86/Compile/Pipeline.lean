import RpnY86.Assembly.Image
import RpnY86.Code.Program
import RpnY86.Compile.Error
import RpnY86.Record

/-! # Compiling an expression

An expression is read, built and given code; then the stack region is checked, and the finished
program is assembled once to see that its code ends below that region. A `Compilation` says how far
this went; its result and its log are read off it.

An expression begins with a number and does not end with one. Whether each operation finds its
operands is not decided here but when the program runs. -/

namespace RpnY86

namespace Operation

/-- Tokens without an end token behind them. -/
def withoutEnd (ts : List Token) : List Token :=
  if (ts.getLast?.map Token.kind) = some .eof then ts.dropLast else ts

/-- The operation of a token. -/
def ofToken (t : Token) : Except CompileError Operation :=
  match Opcode.ofToken? t.kind with
  | some .push => .ok { opcode := .push, literal := t.literal, pos := t.pos }
  | some opcode => .ok { opcode, literal := "", pos := t.pos }
  | none => .error (.atToken .unknownToken t (.noInstruction t.kind))

/-- The operations of an expression. -/
def ofTokens (ts : List Token) : Except CompileError (List Operation) :=
  let ts := withoutEnd ts
  match ts.head?, ts.getLast? with
  | some first, some last =>
    if first.kind ≠ .number then .error (.atToken .invalidStart first (.found first.kind))
    else if last.kind = .number then .error (.atToken .invalidEnd last .operatorExpected)
    else ts.mapM ofToken
  | _, _ => .error { kind := .emptyExpression }

end Operation

/-- How far the compilation of an expression went. -/
inductive Compilation where
  | lexFailed (e : CompileError)
  /-- The expression has this many tokens, the end included. -/
  | buildFailed (tokens : Nat) (e : CompileError)
  | codeFailed (tokens operations : Nat) (e : CompileError)
  | layoutFailed (tokens operations : Nat) (e : Interruption CompileError)
  | done (tokens operations : Nat) (r : Code.StackRegion) (program : String)
deriving DecidableEq, Repr

/-- Assembles a program to see that it can be. -/
def checkLayout (program : String) : Except (Interruption CompileError) Unit :=
  match (Assembly.assemble (.ofString program)).image with
  | .ok _ => .ok ()
  | .error i => .error (i.map fun e =>
    { kind := .codeGeneration
      detail := if e.problem = .originBackward then .stackOverlap else .assemblyFailed
      cause := some (.assembly e) })

/-- The error of a stack region that does not fit above address 0. -/
def noStackSpace (r : Code.StackRegion) : CompileError where
  kind := .codeGeneration
  detail := .stackSpace r.size.toInt r.top.toInt

namespace Compilation

/-- Compiles an expression for a stack region. -/
def run (r : Code.StackRegion) (cs : List Char) : Compilation :=
  match lex cs with
  | .error e => .lexFailed e
  | .ok ts =>
    match Operation.ofTokens ts with
    | .error e => .buildFailed ts.length e
    | .ok os =>
      match Code.body os with
      | .error e => .codeFailed ts.length os.length e
      | .ok body =>
        if r.fits then
          let program := Code.program body r
          match checkLayout program with
          | .error i => .layoutFailed ts.length os.length i
          | .ok () => .done ts.length os.length r program
        else .codeFailed ts.length os.length (noStackSpace r)

/-- The program, or what stood in its way. -/
def result : Compilation → Except (Interruption CompileError) String
  | .lexFailed e | .buildFailed _ e | .codeFailed _ _ e => .error (.error e)
  | .layoutFailed _ _ i => .error i
  | .done _ _ _ program => .ok program

/-- The event of read tokens. -/
def lexed (tokens : Nat) : Log.Event where
  fields := [("tokens", .number tokens)]
  message := "lexed expression"

/-- The event of built operations. -/
def built (operations : Nat) : Log.Event where
  fields := [("instructions", .number operations)]
  message := "built IR"

/-- What a compilation logs, in order. -/
def events : Compilation → List Log.Event
  | .lexFailed e => [Log.failure "lex failed" e.message]
  | .buildFailed tokens e => [lexed tokens, Log.failure "build failed" e.message]
  | .codeFailed tokens operations e =>
    [lexed tokens, built operations, Log.failure "codegen failed" e.message]
  | .layoutFailed tokens operations (.error e) =>
    [lexed tokens, built operations, Log.failure "layout failed" e.message]
  | .layoutFailed tokens operations (.defect _) => [lexed tokens, built operations]
  | .done tokens operations r program =>
    [lexed tokens, built operations,
      { fields :=
          [("bytes", .number program.utf8ByteSize), ("stack_top", .number r.top.toInt),
            ("stack_size", .number r.size.toInt)]
        message := "generated program" }]

end Compilation

/-- The program of an expression. -/
def compile (r : Code.StackRegion) (cs : List Char) : Except (Interruption CompileError) String :=
  (Compilation.run r cs).result

/-- The event of an assembled image. -/
def Assembly.Assembled.events (a : Assembly.Assembled) : List Log.Event :=
  match a.image with
  | .ok image =>
    [{ fields :=
         [("labels", .number a.labels.length), ("bytes", .number image.bytes.length)]
       message := "assembled" }]
  | .error _ => []

end RpnY86
