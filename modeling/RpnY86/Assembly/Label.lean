import RpnY86.Assembly.Line
import RpnY86.Numeral.Read

/-! # Addresses of labels

The first pass over a program: the address of each line follows from the lengths of the statements
before it, and a label stands for the address of its line. Operands of instructions do not matter
here. -/

namespace RpnY86.Assembly

/-- Labels and their addresses, the latest first. -/
abbrev LabelTable : Type := List (String × UInt32)

/-- The address of a label. -/
def LabelTable.address? (t : LabelTable) (name : String) : Option UInt32 := t.lookup name

/-- An error on a line. -/
def Line.fail {α : Type} (l : Line) (p : Problem) : Except Error α :=
  .error { line := l.number, problem := p }

/-- The number that is the one operand of a directive. -/
def Line.directiveNumber (l : Line) (d : Directive) : Except Error UInt32 :=
  match l.operands with
  | [operand] =>
    match Numeral.readUnsigned .marked 32 (Text.chars operand) with
    | .ok n => .ok n.toUInt32
    | .error _ => l.fail (.directiveValue d operand)
  | _ => l.fail (.directiveOperands d)

/-- The first multiple of `n` from `address` on, in 32 bits. -/
def alignUp (address n : UInt32) : UInt32 := (address + n - 1) / n * n

/-- The address behind a line that starts at `address`. -/
def Line.addressAfter (l : Line) (address : UInt32) : Except Error UInt32 :=
  match l.mnemonic with
  | none => .ok address
  | some name =>
    match Keyword.ofName? name with
    | some (.directive .pos) => do
      let target ← l.directiveNumber .pos
      if target < address then l.fail .originBackward else .ok target
    | some (.directive .align) => do
      let n ← l.directiveNumber .align
      if n = 0 then l.fail .zeroAlignment else .ok (alignUp address n)
    | some (.directive .long) =>
      match l.operands with
      | [_] => .ok (address + 4)
      | _ => l.fail (.directiveOperands .long)
    | some (.instruction m) => .ok (address + m.length.toUInt32)
    | none => l.fail (.unknownInstruction name)

/-- Gives labels an address, one after the other. At a label that has one already the rest is left
out, and that label is returned. -/
def LabelTable.define (address : UInt32) : LabelTable → List String → LabelTable × Option String
  | t, [] => (t, none)
  | t, name :: names =>
    if (t.address? name).isSome then (t, some name)
    else LabelTable.define address ((name, address) :: t) names

/-- Gives the labels of lines from `address` on their addresses. The table holds all labels up to
the first error. -/
def locate (address : UInt32) : LabelTable → List Line → LabelTable × Option Error
  | t, [] => (t, none)
  | t, l :: ls =>
    match t.define address l.labels with
    | (t, some name) => (t, some { line := l.number, problem := .duplicateLabel name })
    | (t, none) =>
      match l.addressAfter address with
      | .ok next => locate next t ls
      | .error e => (t, some e)

end RpnY86.Assembly
