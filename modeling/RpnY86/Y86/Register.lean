import RpnY86.Numeral.Digits

/-! # Registers

The eight general registers and a register file that holds a word for each of them. -/

namespace RpnY86.Y86

/-- A general register. -/
inductive Reg where
  | eax
  | ecx
  | edx
  | ebx
  | esp
  | ebp
  | esi
  | edi
deriving DecidableEq, Repr

namespace Reg

/-- All registers, in the order of their codes. -/
def all : List Reg := [.eax, .ecx, .edx, .ebx, .esp, .ebp, .esi, .edi]

/-- The code of a register in an instruction. -/
def code : Reg → UInt8
  | .eax => 0
  | .ecx => 1
  | .edx => 2
  | .ebx => 3
  | .esp => 4
  | .ebp => 5
  | .esi => 6
  | .edi => 7

/-- The register with a given code. -/
def ofCode? : UInt8 → Option Reg
  | 0 => some .eax
  | 1 => some .ecx
  | 2 => some .edx
  | 3 => some .ebx
  | 4 => some .esp
  | 5 => some .ebp
  | 6 => some .esi
  | 7 => some .edi
  | _ => none

/-- The register whose code is the lowest three bits of `n`. -/
def ofLowBits (n : UInt8) : Reg := (ofCode? (n &&& 7)).getD .edi

/-- The name of a register. -/
def name : Reg → String
  | .eax => "%eax"
  | .ecx => "%ecx"
  | .edx => "%edx"
  | .ebx => "%ebx"
  | .esp => "%esp"
  | .ebp => "%ebp"
  | .esi => "%esi"
  | .edi => "%edi"

/-- The register with a given name. -/
def ofName? (s : String) : Option Reg := all.find? (·.name == s)

/-- What to call the register with code `n`, whether there is one or not. -/
def nameOfCode (n : UInt8) : String :=
  match ofCode? n with
  | some r => r.name
  | none => "r" ++ Numeral.decimal n.toNat

end Reg

/-- The contents of the registers. -/
structure Registers where
  eax : UInt32 := 0
  ecx : UInt32 := 0
  edx : UInt32 := 0
  ebx : UInt32 := 0
  esp : UInt32 := 0
  ebp : UInt32 := 0
  esi : UInt32 := 0
  edi : UInt32 := 0
deriving DecidableEq, Repr

namespace Registers

/-- The word in register `r`. -/
def get (f : Registers) : Reg → UInt32
  | .eax => f.eax
  | .ecx => f.ecx
  | .edx => f.edx
  | .ebx => f.ebx
  | .esp => f.esp
  | .ebp => f.ebp
  | .esi => f.esi
  | .edi => f.edi

/-- The register file with `v` in register `r`. -/
def set (f : Registers) (r : Reg) (v : UInt32) : Registers :=
  match r with
  | .eax => { f with eax := v }
  | .ecx => { f with ecx := v }
  | .edx => { f with edx := v }
  | .ebx => { f with ebx := v }
  | .esp => { f with esp := v }
  | .ebp => { f with ebp := v }
  | .esi => { f with esi := v }
  | .edi => { f with edi := v }

@[simp] theorem get_set (f : Registers) (r q : Reg) (v : UInt32) :
    (f.set r v).get q = if q = r then v else f.get q := by
  cases r <;> cases q <;> rfl

end Registers

end RpnY86.Y86
