import RpnY86.Assembly.Mnemonic
import RpnY86.Text.Glyph

/-! # Errors of the assembler

What can be wrong with a line of a program text. Messages show the text of the line as it was
written, stray bytes included. -/

namespace RpnY86.Assembly

/-- What is wrong with a line. -/
inductive Problem where
  /-- A colon with nothing before it. -/
  | missingLabel
  /-- A label that is no identifier. -/
  | invalidLabel (name : Text)
  /-- A label that an earlier line defines. -/
  | duplicateLabel (name : String)
  /-- A directive with no or several operands. -/
  | directiveOperands (d : Directive)
  /-- A directive whose operand is no number of 32 bits. -/
  | directiveValue (d : Directive) (operand : Text)
  /-- An origin below the current address. -/
  | originBackward
  /-- An alignment to multiples of zero. -/
  | zeroAlignment
  | unknownInstruction (name : String)
  /-- An instruction with a wrong number of operands. -/
  | operandCount (m : Mnemonic)
  | invalidRegister (operand : Text)
  | invalidMemory (operand : Text)
  /-- A number that is no word, signed or not. -/
  | immediateRange (operand : Text)
  /-- An identifier that no line defines. -/
  | undefinedLabel (name : Text)
  | invalidImmediate (operand : Text)
deriving DecidableEq, Repr

/-- A problem and the number of its line. -/
structure Error where
  line : Int
  problem : Problem
deriving DecidableEq, Repr

/-- A number of operands. -/
def operandsText : Nat → String
  | 1 => "1 operand"
  | n => Numeral.decimal n ++ " operands"

/-- The message of an error. -/
def Error.message (e : Error) : Text :=
  let onLine := " on line " ++ Numeral.decimal e.line
  let plain (s : String) : Text := .ofString (s ++ onLine)
  let around (before : String) (t : Text) (after : String) : Text :=
    .ofString before ++ t ++ .ofString after
  match e.problem with
  | .missingLabel => plain "invalid label"
  | .invalidLabel name => around "invalid label '" name ("'" ++ onLine)
  | .duplicateLabel name => plain ("duplicate label '" ++ name ++ "'")
  | .directiveOperands d => plain (d.name ++ " expects exactly one operand")
  | .directiveValue d operand =>
    around ("invalid " ++ d.name ++ " value" ++ onLine ++ ": ") operand ""
  | .originBackward => plain "cannot move origin backward"
  | .zeroAlignment => plain ".align needs a positive operand"
  | .unknownInstruction name => .ofString ("unknown instruction" ++ onLine ++ ": " ++ name)
  | .operandCount m => plain (m.name ++ " expects " ++ operandsText m.arity)
  | .invalidRegister operand => around "invalid register '" operand ("'" ++ onLine)
  | .invalidMemory operand => around "invalid memory operand '" operand ("'" ++ onLine)
  | .immediateRange operand => around ("immediate out of range" ++ onLine ++ ": ") operand ""
  | .undefinedLabel name => around "undefined label '" name ("'" ++ onLine)
  | .invalidImmediate operand => around "invalid immediate '" operand ("'" ++ onLine)

end RpnY86.Assembly
