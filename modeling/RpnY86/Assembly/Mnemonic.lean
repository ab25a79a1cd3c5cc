import RpnY86.Y86.Instruction

/-! # Names of instructions and directives

What a statement of a program text can begin with. A directive starts with a dot; a mnemonic names
an instruction up to its operands. -/

namespace RpnY86.Assembly

open Y86 (AluOp Condition Instruction)

/-- A directive. -/
inductive Directive where
  /-- Continues at a given address. -/
  | pos
  /-- Continues at the next multiple of a number. -/
  | align
  /-- Stands for a word of data. -/
  | long
deriving DecidableEq, Repr

/-- The name of a directive. -/
def Directive.name : Directive → String
  | .pos => ".pos"
  | .align => ".align"
  | .long => ".long"

/-- An instruction without its operands. -/
inductive Mnemonic where
  | halt
  | nop
  | ret
  | push
  | pop
  | move (c : Condition)
  | alu (op : AluOp)
  | jump (c : Condition)
  | call
  | constant
  | store
  | load
deriving DecidableEq, Repr

namespace Mnemonic

/-- The name of an instruction in a program text. -/
def name : Mnemonic → String
  | .halt => "halt"
  | .nop => "nop"
  | .ret => "ret"
  | .push => "pushl"
  | .pop => "popl"
  | .move .always => "rrmovl"
  | .move .le => "cmovle"
  | .move .l => "cmovl"
  | .move .e => "cmove"
  | .move .ne => "cmovne"
  | .move .ge => "cmovge"
  | .move .g => "cmovg"
  | .alu .add => "addl"
  | .alu .sub => "subl"
  | .alu .and => "andl"
  | .alu .xor => "xorl"
  | .jump .always => "jmp"
  | .jump .le => "jle"
  | .jump .l => "jl"
  | .jump .e => "je"
  | .jump .ne => "jne"
  | .jump .ge => "jge"
  | .jump .g => "jg"
  | .call => "call"
  | .constant => "irmovl"
  | .store => "rmmovl"
  | .load => "mrmovl"

/-- All mnemonics. -/
def all : List Mnemonic :=
  [.halt, .nop, .ret, .push, .pop, .call, .constant, .store, .load,
   .alu .add, .alu .sub, .alu .and, .alu .xor,
   .move .always, .move .le, .move .l, .move .e, .move .ne, .move .ge, .move .g,
   .jump .always, .jump .le, .jump .l, .jump .e, .jump .ne, .jump .ge, .jump .g]

/-- The mnemonic with a given name. -/
def ofName? (s : String) : Option Mnemonic := all.find? (·.name == s)

/-- The length of an instruction in bytes. -/
def length : Mnemonic → Nat
  | .halt | .nop | .ret => 1
  | .push | .pop | .move _ | .alu _ => 2
  | .jump _ | .call => 5
  | .constant | .store | .load => 6

/-- The number of operands of an instruction. -/
def arity : Mnemonic → Nat
  | .halt | .nop | .ret => 0
  | .push | .pop | .jump _ | .call => 1
  | .move _ | .alu _ | .constant | .store | .load => 2

end Mnemonic

/-- What a statement begins with. -/
inductive Keyword where
  | directive (d : Directive)
  | instruction (m : Mnemonic)
deriving DecidableEq, Repr

/-- The directive or mnemonic with a given name. -/
def Keyword.ofName? (s : String) : Option Keyword :=
  if s = Directive.pos.name then some (.directive .pos)
  else if s = Directive.align.name then some (.directive .align)
  else if s = Directive.long.name then some (.directive .long)
  else (Mnemonic.ofName? s).map .instruction

end RpnY86.Assembly

namespace RpnY86.Y86.Instruction

/-- The mnemonic of an instruction. -/
def mnemonic {α : Type} : Instruction α → Assembly.Mnemonic
  | .halt => .halt
  | .nop => .nop
  | .ret => .ret
  | .push _ => .push
  | .pop _ => .pop
  | .move c _ _ => .move c
  | .alu op _ _ => .alu op
  | .jump c _ => .jump c
  | .call _ => .call
  | .constant .. => .constant
  | .store .. => .store
  | .load .. => .load

theorem length_mnemonic {α : Type} (i : Instruction α) : i.mnemonic.length = i.length := by
  cases i <;> rfl

end RpnY86.Y86.Instruction
