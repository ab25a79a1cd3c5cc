import RpnY86.Numeral.Digits
import RpnY86.Text.Glyph
import RpnY86.Text.Printable

/-! # Quoted text and columns

Text between quotation marks, on one line and without invisible characters. Printable characters
stand for themselves, apart from the mark and the backslash, which get a backslash in front. Other
characters are written as a letter after a backslash where there is one (`\n`), and as their code
point otherwise: two hexadecimal digits for a control, four or eight for the rest. A stray byte is
written as a control is.

Also here: text set in a column of a given width, counted in characters. Longer text is left as it
is. -/

namespace RpnY86.Text

/-- A backslash, a letter and a code point in at least `width` hexadecimal digits. -/
def codeEscape (letter : Char) (width : Nat) (c : Char) : List Char :=
  '\\' :: letter :: Numeral.paddedDigits 16 width c.toNat

/-- The characters that stand for `c` between two marks `mark`. -/
def escapeChar (mark c : Char) : List Char :=
  if c = mark ∨ c = '\\' then ['\\', c]
  else if isPrintable c then [c]
  else if c.toNat = 7 then ['\\', 'a']
  else if c.toNat = 8 then ['\\', 'b']
  else if c.toNat = 12 then ['\\', 'f']
  else if c.toNat = 10 then ['\\', 'n']
  else if c.toNat = 13 then ['\\', 'r']
  else if c.toNat = 9 then ['\\', 't']
  else if c.toNat = 11 then ['\\', 'v']
  else if c.toNat < 32 ∨ c.toNat = 127 then codeEscape 'x' 2 c
  else if c.toNat < 0x10000 then codeEscape 'u' 4 c
  else codeEscape 'U' 8 c

/-- Characters between two marks. -/
def quoteWith (mark : Char) (cs : List Char) : List Char :=
  mark :: cs.flatMap (escapeChar mark) ++ [mark]

/-- The double quotation mark. -/
def doubleMark : Char := '\x22'

/-- The single quotation mark. -/
def singleMark : Char := '\x27'

/-- A string in double quotation marks. -/
def quoted (s : String) : String := String.ofList (quoteWith doubleMark s.toList)

/-- The characters that stand for a glyph between two marks `mark`. -/
def escapeGlyph (mark : Char) : Glyph → List Char
  | .char c => escapeChar mark c
  | .stray b => '\\' :: 'x' :: Numeral.paddedDigits 16 2 b.toNat

/-- A text in double quotation marks. -/
def quotedText (t : Text) : String :=
  String.ofList (doubleMark :: t.flatMap (escapeGlyph doubleMark) ++ [doubleMark])

/-- A character in single quotation marks. -/
def quotedChar (c : Char) : String := String.ofList (quoteWith singleMark [c])

/-! ### Columns -/

/-- A string of `n` spaces. -/
def spaces (n : Nat) : String := String.ofList (List.replicate n ' ')

/-- A string with spaces behind it up to `width` characters. -/
def padRight (width : Nat) (s : String) : String := s ++ spaces (width - s.length)

/-- A string with spaces before it up to `width` characters. -/
def padLeft (width : Nat) (s : String) : String := spaces (width - s.length) ++ s

end RpnY86.Text
