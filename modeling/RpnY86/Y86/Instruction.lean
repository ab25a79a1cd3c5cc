import RpnY86.Y86.Flags
import RpnY86.Y86.Register

/-! # Instructions

The instruction set as a type, and the bytes of each instruction. The type of the constants is a
parameter: an instruction of a program text holds references to labels, an instruction of a machine
holds words. -/

namespace RpnY86.Y86

/-- An instruction whose constants are of type `α`. -/
inductive Instruction (α : Type) where
  | halt
  | nop
  /-- Copies a register if the condition holds. -/
  | move (c : Condition) (src dst : Reg)
  /-- Puts a constant into a register. -/
  | constant (v : α) (dst : Reg)
  /-- Stores a register at a displacement from a base, or at the displacement itself. -/
  | store (src : Reg) (d : α) (base : Option Reg)
  /-- Loads a register from a displacement from a base, or from the displacement itself. -/
  | load (d : α) (base : Option Reg) (dst : Reg)
  /-- Combines the destination with the source. -/
  | alu (op : AluOp) (src dst : Reg)
  /-- Goes to an address if the condition holds. -/
  | jump (c : Condition) (dest : α)
  | call (dest : α)
  | ret
  | push (src : Reg)
  | pop (dst : Reg)
deriving DecidableEq, Repr

/-- Two nibbles in one byte. Only the lower four bits of the second count, and the upper four of the
first are lost. -/
def packNibbles (high low : UInt8) : UInt8 := high <<< 4 ||| (low &&& 0xf)

/-- The upper nibble of a byte. -/
def highNibble (b : UInt8) : UInt8 := b >>> 4

/-- The lower nibble of a byte. -/
def lowNibble (b : UInt8) : UInt8 := b &&& 0xf

/-- The four bytes of a word, lowest first. -/
def wordBytes (v : UInt32) : List UInt8 :=
  [v.toUInt8, (v >>> 8).toUInt8, (v >>> 16).toUInt8, (v >>> 24).toUInt8]

/-- The word with four given bytes, lowest first. -/
def wordOfBytes (b₀ b₁ b₂ b₃ : UInt8) : UInt32 :=
  b₀.toUInt32 ||| (b₁.toUInt32 <<< 8) ||| (b₂.toUInt32 <<< 16) ||| (b₃.toUInt32 <<< 24)

theorem or_bytes_eq {n : Nat} (h : n < 0x100000000) :
    n % 0x100 ||| (n >>> 8 % 0x100) <<< 8 % 0x100000000 |||
      (n >>> 16 % 0x100) <<< 16 % 0x100000000 ||| (n >>> 24 % 0x100) <<< 24 % 0x100000000 = n := by
  have h8 : 0x100 = 2 ^ 8 := rfl
  have h32 : 0x100000000 = 2 ^ 32 := rfl
  rw [h32] at h
  rw [h8, h32]
  apply Nat.eq_of_testBit_eq
  intro i
  simp only [Nat.testBit_or, Nat.testBit_mod_two_pow, Nat.testBit_shiftLeft,
    Nat.testBit_shiftRight]
  by_cases h32 : i < 32
  · by_cases h8 : i < 8
    · simp [h8, show ¬ 8 ≤ i by omega, show ¬ 16 ≤ i by omega, show ¬ 24 ≤ i by omega]
    by_cases h16 : i < 16
    · simp [h8, h32, show 8 ≤ i by omega, show i - 8 < 8 by omega, show ¬ 16 ≤ i by omega,
        show ¬ 24 ≤ i by omega, show 8 + (i - 8) = i by omega]
    by_cases h24 : i < 24
    · simp [h8, h32, show ¬ i - 8 < 8 by omega, show 16 ≤ i by omega, show i - 16 < 8 by omega,
        show ¬ 24 ≤ i by omega, show 16 + (i - 16) = i by omega]
    · simp [h8, h32, show ¬ i - 8 < 8 by omega, show ¬ i - 16 < 8 by omega, show 24 ≤ i by omega,
        show i - 24 < 8 by omega, show 24 + (i - 24) = i by omega]
  · have hn : n.testBit i = false :=
      Nat.testBit_lt_two_pow (Nat.lt_of_lt_of_le h (Nat.pow_le_pow_right (by omega) (by omega)))
    simp [h32, hn]

@[simp] theorem wordOfBytes_bytes (v : UInt32) :
    wordOfBytes v.toUInt8 (v >>> 8).toUInt8 (v >>> 16).toUInt8 (v >>> 24).toUInt8 = v := by
  apply UInt32.toNat_inj.1
  simp only [wordOfBytes, UInt32.toNat_or, UInt32.toNat_shiftLeft, UInt8.toNat_toUInt32,
    UInt32.toNat_toUInt8, UInt32.toNat_shiftRight]
  exact or_bytes_eq v.toNat_lt

/-- The code that stands where an instruction names no register. -/
def noRegister : UInt8 := 0xf

/-- The code of a base register that may be absent. -/
def baseCode : Option Reg → UInt8
  | some r => r.code
  | none => noRegister

namespace Instruction

/-- The length of an instruction in bytes. -/
def length {α : Type} : Instruction α → Nat
  | .halt | .nop | .ret => 1
  | .move .. | .alu .. | .push _ | .pop _ => 2
  | .jump .. | .call _ => 5
  | .constant .. | .store .. | .load .. => 6

/-- The bytes of an instruction. -/
def encode : Instruction UInt32 → List UInt8
  | .halt => [packNibbles 0x0 0]
  | .nop => [packNibbles 0x1 0]
  | .move c src dst => [packNibbles 0x2 c.code, packNibbles src.code dst.code]
  | .constant v dst => [packNibbles 0x3 0, packNibbles noRegister dst.code] ++ wordBytes v
  | .store src d base => [packNibbles 0x4 0, packNibbles src.code (baseCode base)] ++ wordBytes d
  | .load d base dst => [packNibbles 0x5 0, packNibbles dst.code (baseCode base)] ++ wordBytes d
  | .alu op src dst => [packNibbles 0x6 op.code, packNibbles src.code dst.code]
  | .jump c dest => packNibbles 0x7 c.code :: wordBytes dest
  | .call dest => packNibbles 0x8 0 :: wordBytes dest
  | .ret => [packNibbles 0x9 0]
  | .push src => [packNibbles 0xa 0, packNibbles src.code noRegister]
  | .pop dst => [packNibbles 0xb 0, packNibbles dst.code noRegister]

theorem length_encode (i : Instruction UInt32) : i.encode.length = i.length := by
  cases i <;> rfl

end Instruction

end RpnY86.Y86
