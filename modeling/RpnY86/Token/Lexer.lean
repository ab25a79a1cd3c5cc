import RpnY86.Text.Classes
import RpnY86.Token.Basic

/-! # Reading the words of an expression

Words stand between separators: space, tab, line feed and carriage return. A word is a number
(digits, perhaps behind a minus sign), an operator of one character, or one of the words `and`,
`xor`, `dup`, `swap`.

`scan` goes through the whole text and finds either a token or something to report at each place
where it starts to read. What it reports is of three kinds.

* A run of letters that is no word of the language. Reading goes on behind the letters.
* A character that starts no word. Reading goes on behind it.
* A word that is glued to what follows. Both are passed over, up to the next separator. -/

namespace RpnY86

/-! ### Classes of characters -/

/-- Whether `c` separates words. -/
def Lexer.isSeparator (c : Char) : Bool := c == ' ' || c == '\t' || c == '\n' || c == '\r'

/-- The kind of a word made of letters. -/
def TokenKind.ofKeyword? (word : String) : Option TokenKind :=
  if word = "and" then some .and
  else if word = "xor" then some .xor
  else if word = "dup" then some .dup
  else if word = "swap" then some .swap
  else none

/-- The kind of an operator. -/
def TokenKind.ofOperator? : Char → Option TokenKind
  | '+' => some .plus
  | '-' => some .minus
  | '*' => some .asterisk
  | '/' => some .slash
  | '%' => some .mod
  | '^' => some .power
  | '!' => some .factorial
  | _ => none

/-! ### What can be wrong -/

/-- What is wrong at a place of the text. -/
inductive Complaint where
  | unknownWord (word : String)
  | unexpectedChar (c : Char)
  | missingSeparator (left right : String)
deriving DecidableEq, Repr

/-- A complaint and the position it is about. -/
structure LexError where
  complaint : Complaint
  pos : Nat
deriving DecidableEq, Repr

namespace LexError

/-- The message of a single complaint. -/
def message (e : LexError) : String :=
  let what := match e.complaint with
    | .unknownWord word => "unknown word " ++ Text.quoted word
    | .unexpectedChar c => "unexpected character " ++ Text.quotedChar c
    | .missingSeparator left right =>
      "missing whitespace between " ++ Text.quoted left ++ " and " ++ Text.quoted right
  what ++ " at position " ++ Numeral.decimal e.pos

/-- The message of several complaints. -/
def joined (es : List LexError) : String := "; ".intercalate (es.map message)

end LexError

/-! ### Scanning -/

namespace Lexer

/-- What was found at one place, and how many characters it takes. -/
structure Scanned where
  result : Except LexError Token
  width : Nat

/-- A word with text `text`, unless something other than a separator follows it in `rest`. -/
def Scanned.word (pos : Nat) (kind : TokenKind) (text rest : List Char) : Scanned :=
  let glued := rest.takeWhile (!isSeparator ·)
  if glued.isEmpty then
    { result := .ok { kind, literal := String.ofList text, pos }
      width := text.length }
  else
    { result := .error
        { complaint := .missingSeparator (String.ofList text) (String.ofList glued)
          pos := pos + text.length }
      width := text.length + glued.length }

/-- What stands at position `pos`, where the text is `c :: cs` and `c` is no separator. -/
def scanAt (pos : Nat) (c : Char) (cs : List Char) : Scanned :=
  if c.isDigit || (c == '-' && cs.head?.any Char.isDigit) then
    .word pos .number (c :: cs.takeWhile Char.isDigit) (cs.dropWhile Char.isDigit)
  else if Text.isLetter c then
    let text := c :: cs.takeWhile Text.isLetter
    match TokenKind.ofKeyword? (String.ofList text) with
    | some kind => .word pos kind text (cs.dropWhile Text.isLetter)
    | none =>
      { result := .error { complaint := .unknownWord (String.ofList text), pos }
        width := text.length }
  else
    match TokenKind.ofOperator? c with
    | some kind => .word pos kind [c] cs
    | none => { result := .error { complaint := .unexpectedChar c, pos }, width := 1 }

/-- Everything found from position `pos` on, behind `skip` characters that are already read. -/
def scanFrom : (skip pos : Nat) → List Char → List (Except LexError Token)
  | _, _, [] => []
  | skip + 1, pos, _ :: cs => scanFrom skip (pos + 1) cs
  | 0, pos, c :: cs =>
    if isSeparator c then scanFrom 0 (pos + 1) cs
    else
      let found := scanAt pos c cs
      found.result :: scanFrom (found.width - 1) (pos + 1) cs

/-- Everything found in a text, in order. -/
def scan (cs : List Char) : List (Except LexError Token) := scanFrom 0 0 cs

/-- The complaints among what was found. -/
def complaints (found : List (Except LexError Token)) : List LexError :=
  found.filterMap fun
    | .error e => some e
    | .ok _ => none

/-- The tokens among what was found. -/
def tokens (found : List (Except LexError Token)) : List Token :=
  found.filterMap fun
    | .ok t => some t
    | .error _ => none

end Lexer

/-- The token behind the last character of a text. -/
def Token.atEnd (cs : List Char) : Token := { kind := .eof, literal := "", pos := cs.length }

end RpnY86
