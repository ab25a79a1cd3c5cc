import RpnY86.Assembly.Label
import RpnY86.Defect

/-! # The image of a program

The second pass over a program: each statement becomes bytes behind those of the statements before
it. A machine loads the image at address 0. -/

namespace RpnY86.Assembly

open Y86 (Instruction Reg)

/-! ### Operands -/

/-- A register. -/
def Line.register (l : Line) (operand : Text) : Except Error Reg :=
  match Reg.ofName? (lowered operand) with
  | some r => .ok r
  | none => l.fail (.invalidRegister operand)

/-- A word: a number or a label, perhaps behind a dollar sign. -/
def Line.word (l : Line) (labels : LabelTable) (operand : Text) : Except Error UInt32 :=
  let bare := match operand with
    | .char '$' :: rest => rest
    | _ => operand
  match Numeral.readSigned .marked 64 (Text.chars bare) with
  | .ok n =>
    if -0x80000000 ≤ n ∧ n < 0x100000000 then .ok (UInt32.ofInt n)
    else l.fail (.immediateRange operand)
  | .error _ =>
    match labels.address? (Text.toString bare) with
    | some address => .ok address
    | none =>
      if isIdentifier (Text.chars bare) then l.fail (.undefinedLabel bare)
      else l.fail (.invalidImmediate operand)

/-- A place in memory: a base register in parentheses, perhaps behind a displacement. -/
def Line.place (l : Line) (labels : LabelTable) (operand : Text) : Except Error (UInt32 × Reg) :=
  let displacement := operand.takeWhile (!·.is '(')
  match operand.dropWhile (!·.is '(') with
  | _ :: base =>
    if base.getLast? = some (.char ')') then do
      let r ← l.register base.dropLast
      let d ← if displacement.isEmpty then pure 0 else l.word labels displacement
      .ok (d, r)
    else l.fail (.invalidMemory operand)
  | [] => l.fail (.invalidMemory operand)

/-- The instruction with a given mnemonic and the operands of a line. -/
def Line.instruction (l : Line) (labels : LabelTable) (m : Mnemonic) :
    Except Error (Instruction UInt32) :=
  match m, l.operands with
  | .halt, [] => .ok .halt
  | .nop, [] => .ok .nop
  | .ret, [] => .ok .ret
  | .push, [a] => return .push (← l.register a)
  | .pop, [a] => return .pop (← l.register a)
  | .move c, [a, b] => return .move c (← l.register a) (← l.register b)
  | .alu op, [a, b] => return .alu op (← l.register a) (← l.register b)
  | .jump c, [a] => return .jump c (← l.word labels a)
  | .call, [a] => return .call (← l.word labels a)
  | .constant, [a, b] => return .constant (← l.word labels a) (← l.register b)
  | .store, [a, b] => do
    let src ← l.register a
    let (d, base) ← l.place labels b
    return .store src d (some base)
  | .load, [a, b] => do
    let dst ← l.register b
    let (d, base) ← l.place labels a
    return .load d (some base) dst
  | m, _ => l.fail (.operandCount m)

/-! ### Bytes -/

/-- Bytes of an image: where they start, and the line that they come from unless they are
padding. -/
structure Chunk where
  start : Nat
  line : Option Int
  bytes : List UInt8
deriving DecidableEq, Repr

/-- An image under construction: its length and its bytes so far. -/
structure Emission where
  length : Nat
  chunks : Array Chunk
deriving DecidableEq, Repr

namespace Emission

/-- The emission with bytes added. -/
def add (e : Emission) (line : Option Int) (bytes : List UInt8) : Emission where
  length := e.length + bytes.length
  chunks := e.chunks.push { start := e.length, line, bytes }

/-- The emission with the bytes of a line added. A directive that moves the address adds zeros;
where the new address would lie below the image's length there is no such number of zeros. -/
def addLine (labels : LabelTable) (e : Emission) (l : Line) :
    Except (Interruption Error) Emission :=
  match l.mnemonic with
  | none => .ok e
  | some name =>
    match Keyword.ofName? name with
    | some (.directive .pos) | some (.directive .align) => do
      let next ← (l.addressAfter e.length.toUInt32).mapError .error
      if next.toNat < e.length then .error (.defect .negativePadding)
      else .ok (e.add none (List.replicate (next.toNat - e.length) 0))
    | some (.directive .long) =>
      match l.operands with
      | [operand] => do
        let v ← (l.word labels operand).mapError .error
        .ok (e.add (some l.number) (Y86.wordBytes v))
      | _ => (l.fail (.directiveOperands .long)).mapError .error
    | some (.instruction m) => do
      let i ← (l.instruction labels m).mapError .error
      .ok (e.add (some l.number) i.encode)
    | none => (l.fail (.unknownInstruction name)).mapError .error

end Emission

/-- An assembled program: its bytes, and for each instruction or word of data its address and the
number of its line. -/
structure Image where
  bytes : List UInt8
  sourceMap : List (UInt32 × Int)
deriving DecidableEq, Repr

/-- The image of a finished emission. -/
def Emission.image (e : Emission) : Image where
  bytes := e.chunks.toList.flatMap Chunk.bytes
  sourceMap := e.chunks.toList.filterMap fun c => c.line.map (c.start.toUInt32, ·)

/-- The second pass. -/
def emit (labels : LabelTable) (ls : List Line) : Except (Interruption Error) Image :=
  Emission.image <$> ls.foldlM (Emission.addLine labels) { length := 0, chunks := #[] }

/-- What assembling leaves: the labels, as far as they were located, and the image. -/
structure Assembled where
  labels : LabelTable
  image : Except (Interruption Error) Image

/-- Assembles lines. -/
def assembleLines (ls : List Line) : Assembled :=
  match locate 0 [] ls with
  | (labels, none) => { labels, image := emit labels ls }
  | (labels, some e) => { labels, image := .error (.error e) }

/-- Assembles a program text. All lines are read before anything else is done. -/
def assemble (source : Text) : Assembled :=
  match readLines source with
  | .ok ls => assembleLines ls
  | .error e => { labels := [], image := .error (.error e) }

end RpnY86.Assembly
