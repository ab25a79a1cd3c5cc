/-! # Text that may hold stray bytes

A source file is a sequence of bytes that should be UTF-8 and sometimes is not. `decode` reads it as
a list of glyphs, each a character or a single byte that belongs to no character, and loses nothing:
`encode (decode bs) = bs`. Programs that work with characters see each stray byte as the replacement
character. -/

namespace RpnY86

/-- A unit of decoded text: a character, or a byte that is part of none. -/
inductive Glyph where
  | char (c : Char)
  | stray (b : UInt8)
deriving DecidableEq, Repr

/-- Decoded text. -/
abbrev Text : Type := List Glyph

namespace Glyph

/-- The character that stands for a stray byte. -/
def replacement : Char := Char.ofNat 0xfffd

/-- A glyph as a character. -/
def toChar : Glyph → Char
  | .char c => c
  | .stray _ => replacement

/-- The bytes of a glyph. -/
def bytes : Glyph → List UInt8
  | .char c => String.utf8EncodeChar c
  | .stray b => [b]

/-- Whether a glyph is the character `c`. -/
def is (c : Char) (g : Glyph) : Bool := g == .char c

end Glyph

namespace Text

/-! ### Decoding -/

/-- The payload of a byte that continues a character. -/
def continuation? (b : UInt8) : Option Nat :=
  if 0x80 ≤ b && b < 0xc0 then some (b.toNat - 0x80) else none

/-- The character with code point `n`, if `n` lies between `least` and the last code point and is no
surrogate. The bound refuses a code point written with more bytes than it needs. -/
def scalar? (least n : Nat) : Option Char :=
  if least ≤ n && n ≤ 0x10ffff && !(0xd800 ≤ n && n < 0xe000) then some (Char.ofNat n) else none

/-- The character whose UTF-8 form starts with byte `b` and goes on in `bs`. -/
def leadingChar? (b : UInt8) (bs : List UInt8) : Option Char :=
  if b < 0x80 then some (Char.ofNat b.toNat)
  else if b < 0xc2 then none
  else if b < 0xe0 then
    match bs with
    | b₁ :: _ => do
      let x ← continuation? b₁
      scalar? 0x80 ((b.toNat - 0xc0) * 64 + x)
    | _ => none
  else if b < 0xf0 then
    match bs with
    | b₁ :: b₂ :: _ => do
      let x ← continuation? b₁
      let y ← continuation? b₂
      scalar? 0x800 (((b.toNat - 0xe0) * 64 + x) * 64 + y)
    | _ => none
  else if b < 0xf5 then
    match bs with
    | b₁ :: b₂ :: b₃ :: _ => do
      let x ← continuation? b₁
      let y ← continuation? b₂
      let z ← continuation? b₃
      scalar? 0x10000 ((((b.toNat - 0xf0) * 64 + x) * 64 + y) * 64 + z)
    | _ => none
  else none

/-- Decodes bytes behind the glyphs `done`. The first `skip` bytes belong to the last of these. -/
def decodeAfter (done : Array Glyph) : (skip : Nat) → List UInt8 → Array Glyph
  | _, [] => done
  | skip + 1, _ :: bs => decodeAfter done skip bs
  | 0, b :: bs =>
    match leadingChar? b bs with
    | some c => decodeAfter (done.push (.char c)) (c.utf8Size - 1) bs
    | none => decodeAfter (done.push (.stray b)) 0 bs

/-- Reads bytes as UTF-8. A byte that starts no character stands alone, and decoding goes on with
the next one. -/
def decode (bs : List UInt8) : Text := (decodeAfter #[] 0 bs).toList

/-- The bytes of a text. -/
def encode (t : Text) : List UInt8 := t.flatMap Glyph.bytes

/-! ### Characters -/

/-- The characters of a text, stray bytes replaced. -/
def chars (t : Text) : List Char := t.map Glyph.toChar

/-- A text as a string, stray bytes replaced. -/
def toString (t : Text) : String := String.ofList t.chars

/-- The text of a string. -/
def ofString (s : String) : Text := s.toList.map .char

end Text

end RpnY86
