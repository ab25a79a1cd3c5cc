import RpnY86.Assembly.Mnemonic

/-! # Lines of generated code

Generated code is a list of lines with a label, a statement and a note, any of which may be missing.
Statements are instructions whose constants may be labels, so that code can be reasoned about before
it is text. -/

namespace RpnY86.Code

open Y86 (Instruction Reg)
open Assembly (Directive)

/-- A constant of an instruction: a number or the address of a label. -/
inductive Ref where
  | literal (n : Int)
  | label (name : String)
deriving DecidableEq, Repr

namespace Ref

/-- A constant as an address to jump to. -/
def destination : Ref → String
  | .literal n => Numeral.decimal n
  | .label name => name

/-- A constant as an operand of its own. -/
def immediate : Ref → String
  | .literal n => "$" ++ Numeral.decimal n
  | .label name => name

/-- A constant as a displacement; zero is left out. -/
def displacement : Ref → String
  | .literal 0 => ""
  | r => r.destination

/-- A place in memory. -/
def place (d : Ref) : Option Reg → String
  | some base => d.displacement ++ "(" ++ base.name ++ ")"
  | none => d.destination

end Ref

/-- The operands of an instruction, as written. -/
def operands : Instruction Ref → List String
  | .halt | .nop | .ret => []
  | .push r | .pop r => [r.name]
  | .move _ src dst | .alu _ src dst => [src.name, dst.name]
  | .jump _ dest | .call dest => [dest.destination]
  | .constant v dst => [v.immediate, dst.name]
  | .store src d base => [src.name, d.place base]
  | .load d base dst => [d.place base, dst.name]

/-- A statement. The operand of a directive is given as text. -/
inductive Statement where
  | instruction (i : Instruction Ref)
  | directive (d : Directive) (operand : String)
deriving DecidableEq, Repr

namespace Statement

/-- The name that a statement begins with. -/
def name : Statement → String
  | .instruction i => i.mnemonic.name
  | .directive d _ => d.name

/-- The operands of a statement, as written. -/
def operands : Statement → List String
  | .instruction i => Code.operands i
  | .directive _ operand => [operand]

/-- A statement as text. -/
def text (s : Statement) : String :=
  match s.operands with
  | [] => s.name
  | os => s.name ++ " " ++ ", ".intercalate os

end Statement

/-- A line of code: a label, blanks, a statement, and a note, which is a comment with the blanks
before it. -/
structure Line where
  label : Option String := none
  gap : String := ""
  statement : Option Statement := none
  note : String := ""
deriving DecidableEq, Repr

namespace Line

/-- An empty line. -/
def blank : Line := {}

/-- A line with a label only. -/
def mark (name : String) : Line := { label := some name }

/-- A line with a comment only, not indented. -/
def heading (text : String) : Line := { note := "#" ++ text }

/-- A line with an indented comment only. -/
def comment (text : String) : Line := { gap := "\t", note := "# " ++ text }

/-- An instruction with a note. -/
def noted (i : Instruction Ref) (note : String) : Line :=
  { gap := "\t", statement := some (.instruction i), note }

/-- An instruction. -/
def op (i : Instruction Ref) : Line := noted i ""

/-- A line as text, with its end. -/
def render (l : Line) : String :=
  let label := match l.label with
    | some name => name ++ ":"
    | none => ""
  let statement := match l.statement with
    | some s => s.text
    | none => ""
  label ++ l.gap ++ statement ++ l.note ++ "\n"

end Line

/-- Lines as text. -/
def render (ls : List Line) : String := String.join (ls.map Line.render)

end RpnY86.Code
