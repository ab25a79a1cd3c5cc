import RpnY86.Text.Quoted

/-! # Reading numbers

Integers of a fixed width, read from text. There are two styles. A `plain` numeral is a run of
decimal digits. A `marked` numeral may say its radix: `0x`, `0o`, `0b` in either case, or a leading
`0` for octal; and it may have underscores between its digits or right after the mark.

Digits are read from the left, and the first thing that is wrong decides the error: a character that
is no digit, or a value beyond the width. Misplaced underscores are noticed last. -/

namespace RpnY86.Numeral

/-- How numerals are spelled. -/
inductive Style where
  /-- Decimal digits only. -/
  | plain
  /-- Digits of a radix that a mark may name, with underscores. -/
  | marked
deriving DecidableEq, Repr

/-- Why a numeral is refused. -/
inductive ReadError where
  | malformed
  | outOfRange
deriving DecidableEq, Repr

/-- The value of a digit, letters counting on from ten. -/
def digitValue? (c : Char) : Option Nat :=
  let n := c.toNat
  if 48 ≤ n && n ≤ 57 then some (n - 48)
  else if 97 ≤ n && n ≤ 122 then some (n - 87)
  else if 65 ≤ n && n ≤ 90 then some (n - 55)
  else none

/-- Reads digits behind others of value `value`; the result is at most `bound`. With `gaps`,
underscores are passed over. -/
def readDigits (radix bound : Nat) (gaps : Bool) : (value : Nat) → List Char → Except ReadError Nat
  | value, [] => .ok value
  | value, c :: cs =>
    if gaps && c == '_' then readDigits radix bound gaps value cs
    else
      match digitValue? c with
      | none => .error .malformed
      | some d =>
        if radix ≤ d then .error .malformed
        else if bound < value * radix + d then .error .outOfRange
        else readDigits radix bound gaps (value * radix + d) cs

/-- The radix that a letter behind a leading `0` names. -/
def radixOfMark? (c : Char) : Option Nat :=
  if c == 'x' || c == 'X' then some 16
  else if c == 'o' || c == 'O' then some 8
  else if c == 'b' || c == 'B' then some 2
  else none

/-- The radix of a marked numeral and what follows the mark. -/
def splitMark : List Char → Nat × List Char
  | '0' :: m :: c :: cs =>
    match radixOfMark? m with
    | some radix => (radix, c :: cs)
    | none => (8, m :: c :: cs)
  | '0' :: cs => (8, cs)
  | cs => (10, cs)

/-- Whether every underscore stands behind a digit and before a digit. `behindDigit` says whether
the character in front was one. -/
def gapsPlaced : (behindDigit : Bool) → List Char → Bool
  | _, [] => true
  | behindDigit, c :: cs =>
    if c == '_' then behindDigit && !cs.isEmpty && gapsPlaced false cs else gapsPlaced true cs

/-- Whether the underscores of a marked numeral are well placed. A mark with a letter counts as a
digit. -/
def wellSpaced : List Char → Bool
  | '0' :: m :: cs =>
    if (radixOfMark? m).isSome then gapsPlaced true cs else gapsPlaced true (m :: cs)
  | cs => gapsPlaced false cs

/-- Reads a number of `bits` bits without a sign. -/
def readUnsigned (style : Style) (bits : Nat) (cs : List Char) : Except ReadError Nat :=
  if cs.isEmpty then .error .malformed
  else
    match style with
    | .plain => readDigits 10 ((1 <<< bits) - 1) false 0 cs
    | .marked => do
      let (radix, body) := splitMark cs
      let value ← readDigits radix ((1 <<< bits) - 1) true 0 body
      if wellSpaced cs then .ok value else .error .malformed

/-- Gives a magnitude its sign, if the result fits in `bits` bits in two's complement. -/
def withSign (bits : Nat) (negative : Bool) (magnitude : Nat) : Except ReadError Int :=
  if negative then
    if magnitude ≤ 1 <<< (bits - 1) then .ok (-magnitude) else .error .outOfRange
  else
    if magnitude < 1 <<< (bits - 1) then .ok magnitude else .error .outOfRange

/-- Reads a number of `bits` bits in two's complement, with an optional sign. -/
def readSigned (style : Style) (bits : Nat) : List Char → Except ReadError Int
  | '-' :: cs => readUnsigned style bits cs >>= withSign bits true
  | '+' :: cs => readUnsigned style bits cs >>= withSign bits false
  | cs => readUnsigned style bits cs >>= withSign bits false

/-- The message for text that could not be read, with the reader's name in front. -/
def ReadError.message (reader : String) (source : Text) (e : ReadError) : String :=
  let reason := match e with
    | .malformed => "invalid syntax"
    | .outOfRange => "value out of range"
  reader ++ ": parsing " ++ Text.quotedText source ++ ": " ++ reason

/-- The message for an integer that could not be read. -/
def ReadError.integerMessage (source : Text) (e : ReadError) : String :=
  e.message "strconv.ParseInt" source

/-- The message for a truth value that could not be read. -/
def truthMessage (source : Text) : String :=
  ReadError.malformed.message "strconv.ParseBool" source

end RpnY86.Numeral
