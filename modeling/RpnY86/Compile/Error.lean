import RpnY86.Assembly.Error
import RpnY86.Defect
import RpnY86.Numeral.Read
import RpnY86.Token.Lexer

/-! # Compile errors

Everything that can be wrong with an expression. An error has a kind, perhaps a place in the
expression and the word there, some detail, and perhaps a cause from a lower level. -/

namespace RpnY86

/-- The kind of a compile error. -/
inductive ErrorKind where
  | lexical
  | emptyExpression
  | invalidStart
  | invalidEnd
  | unknownToken
  | codeGeneration
deriving DecidableEq, Repr

namespace ErrorKind

/-- The kind with a given code. -/
def ofCode? : Int → Option ErrorKind
  | 1 => some .lexical
  | 2 => some .emptyExpression
  | 3 => some .invalidStart
  | 4 => some .invalidEnd
  | 5 => some .unknownToken
  | 6 => some .codeGeneration
  | _ => none

/-- The name of a kind. -/
def name : ErrorKind → String
  | .lexical => "LexError"
  | .emptyExpression => "EmptyExpression"
  | .invalidStart => "InvalidStart"
  | .invalidEnd => "InvalidEnd"
  | .unknownToken => "UnknownToken"
  | .codeGeneration => "CodeGenError"

/-- What to call the kind with a given code, whether there is one or not. -/
def nameOfCode (n : Int) : String :=
  match ofCode? n with
  | some k => k.name
  | none => "ErrorKind(" ++ Numeral.decimal n ++ ")"

/-- What an error of a kind says first. -/
def headline : ErrorKind → String
  | .lexical => "lex error"
  | .emptyExpression => "empty expression"
  | .invalidStart => "expression must begin with a number"
  | .invalidEnd => "expression cannot end with a number"
  | .unknownToken => "unknown token"
  | .codeGeneration => "code generation error"

end ErrorKind

/-- What an error says beyond its kind. -/
inductive Detail where
  | none
  /-- The first word is of this kind. -/
  | found (kind : TokenKind)
  | operatorExpected
  /-- No operation belongs to words of this kind. -/
  | noInstruction (kind : TokenKind)
  /-- No code belongs to this opcode. -/
  | noTemplate (opcode : Opcode)
  | literalWidth
  /-- A stack of `size` values does not fit below address `top`. -/
  | stackSpace (size top : Int)
  | stackOverlap
  | assemblyFailed
  | text (s : String)
deriving DecidableEq, Repr

/-- The detail as text; empty if there is none. -/
def Detail.message : Detail → String
  | .none => ""
  | .found kind => "found " ++ kind.name
  | .operatorExpected => "the final token must be an operator"
  | .noInstruction kind => kind.name ++ " has no instruction"
  | .noTemplate opcode => "no code template for " ++ opcode.name
  | .literalWidth => "literal is not a 32-bit integer"
  | .stackSpace size top =>
    "a stack of " ++ Numeral.decimal size ++ " values does not fit below 0x" ++ Numeral.hex top
  | .stackOverlap => "program does not fit below the stack region"
  | .assemblyFailed => "generated program does not assemble"
  | .text s => s

/-- An error of a lower level that a compile error is due to. -/
inductive Cause where
  | lexical (errors : List LexError)
  /-- A number that cannot be read. -/
  | literal (source : String) (e : Numeral.ReadError)
  | assembly (e : Assembly.Error)
  | text (s : String)
deriving DecidableEq, Repr

/-- The message of a cause. -/
def Cause.message : Cause → String
  | .lexical errors => LexError.joined errors
  | .literal source e => e.integerMessage (.ofString source)
  | .assembly e => Text.toString e.message
  | .text s => s

/-- A compile error. A negative position says that the error is at no single place. -/
structure CompileError where
  kind : ErrorKind
  pos : Int := -1
  token : String := ""
  detail : Detail := .none
  cause : Option Cause := none
deriving DecidableEq, Repr

namespace CompileError

/-- An error about a word. -/
def atToken (kind : ErrorKind) (t : Token) (detail : Detail) : CompileError where
  kind := kind
  pos := t.pos
  token := t.literal
  detail := detail

/-- The place of an error, with the word there. -/
def placeText (e : CompileError) : String :=
  if e.pos < 0 then ""
  else
    let word := if e.token = "" then "" else ", token " ++ Text.quoted e.token
    " (position " ++ Numeral.decimal e.pos ++ word ++ ")"

/-- The message of an error: kind, detail, place, cause. -/
def message (e : CompileError) : String :=
  let detail := if e.detail.message = "" then "" else ": " ++ e.detail.message
  let cause := match e.cause with
    | some c => ": " ++ c.message
    | none => ""
  e.kind.headline ++ detail ++ e.placeText ++ cause

end CompileError

/-- The tokens of an expression with an end token behind them, or everything that is wrong with its
words. -/
def lex (cs : List Char) : Except CompileError (List Token) :=
  let found := Lexer.scan cs
  match Lexer.complaints found with
  | [] => .ok (Lexer.tokens found ++ [Token.atEnd cs])
  | e :: es =>
    .error { kind := .lexical, pos := e.pos, cause := some (.lexical (e :: es)) }

end RpnY86
