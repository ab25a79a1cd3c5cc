import RpnY86.Assembly.Error
import RpnY86.Text.LowerCase

/-! # Lines of a program text

A line has labels, each with a colon behind it, then perhaps a statement: a name and operands, with
blanks and commas between them. A `#` starts a comment.

A colon ends a label only if no space or tab stands within what precedes it. So the first colon
behind a blank belongs to the statement, and so do all later ones. -/

namespace RpnY86.Assembly

/-- A line, taken apart. The name of the statement is in lower case. -/
structure Line where
  number : Int
  labels : List String
  mnemonic : Option String
  operands : List Text
deriving DecidableEq, Repr

/-! ### Identifiers -/

/-- Whether a character can start an identifier. -/
def isIdentifierStart (c : Char) : Bool := Text.isLetter c || c == '_'

/-- Whether a character can stand in an identifier. -/
def isIdentifierChar (c : Char) : Bool := Text.isLetter c || Text.isDecimalDigit c || c == '_'

/-- Whether a text is an identifier: letters, decimal digits and underscores, with no digit in
front. -/
def isIdentifier : List Char → Bool
  | [] => false
  | c :: cs => isIdentifierStart c && cs.all isIdentifierChar

/-! ### Cutting text -/

/-- Whether a glyph is white space. A stray byte is none. -/
def blankGlyph : Glyph → Bool
  | .char c => Text.isBlank c
  | .stray _ => false

/-- Text without white space at its ends. -/
def trim (t : Text) : Text :=
  ((t.dropWhile blankGlyph).reverse.dropWhile blankGlyph).reverse

/-- The parts of a text between the characters `c`: the first one and all others. -/
def splitAtChar (c : Char) (t : Text) : Text × List Text :=
  t.foldr (fun g (part, parts) => if g.is c then ([], part :: parts) else (g :: part, parts))
    ([], [])

/-- The text whose parts between the characters `c` are given. -/
def joinWithChar (c : Char) (part : Text) (parts : List Text) : Text :=
  part ++ parts.flatMap (.char c :: ·)

/-- Cutting a text at a character loses nothing else. -/
theorem joinWithChar_splitAtChar (c : Char) (t : Text) :
    joinWithChar c (splitAtChar c t).1 (splitAtChar c t).2 = t := by
  induction t with
  | nil => rfl
  | cons g t ih =>
    simp only [splitAtChar, List.foldr_cons] at ih ⊢
    split
    · rename_i h
      have hg : g = .char c := by simpa [Glyph.is] using h
      simpa [joinWithChar, hg] using ih
    · simpa [joinWithChar] using ih

/-- Whether a glyph separates the fields of a statement. -/
def separatesFields (g : Glyph) : Bool := blankGlyph g || g.is ','

/-- Adds a word to a list of words, unless it is empty. -/
def consWord (word : Text) (words : List Text) : List Text :=
  if word.isEmpty then words else word :: words

/-- The fields of a statement: its longest parts without separators. -/
def fields (t : Text) : List Text :=
  let (word, words) := t.foldr
    (fun g (word, words) =>
      if separatesFields g then ([], consWord word words) else (g :: word, words))
    ([], [])
  consWord word words

/-- A text in lower case, stray bytes replaced. -/
def lowered (t : Text) : String := String.ofList ((Text.chars t).map Text.toLower)

/-! ### Reading a line -/

/-- The labels of a line and what follows them. The line is given as its parts between colons. -/
def readLabels (number : Int) : Text → List Text → Except Error (List String × Text)
  | part, [] => .ok ([], part)
  | part, next :: parts =>
    let name := trim part
    if name.isEmpty then .error { line := number, problem := .missingLabel }
    else if name.any fun g => g.is ' ' || g.is '\t' then
      .ok ([], joinWithChar ':' part (next :: parts))
    else if isIdentifier (Text.chars name) then do
      let (labels, statement) ← readLabels number next parts
      .ok (Text.toString name :: labels, statement)
    else .error { line := number, problem := .invalidLabel name }

/-- Takes a line apart. -/
def Line.read (number : Int) (source : Text) : Except Error Line := do
  let code := source.takeWhile (!·.is '#')
  let (part, parts) := splitAtChar ':' code
  let (labels, statement) ← readLabels number part parts
  match fields statement with
  | [] => .ok { number, labels, mnemonic := none, operands := [] }
  | name :: operands => .ok { number, labels, mnemonic := some (lowered name), operands }

/-- The lines of a program text, numbered from 1. -/
def readLines (source : Text) : Except Error (List Line) :=
  let (first, others) := splitAtChar '\n' source
  ((first :: others).zipIdx 1).mapM fun (t, n) => Line.read n t

end RpnY86.Assembly
