import RpnY86.Text.Quoted

/-! # Tokens

The words of an expression, classified. A kind that comes from outside may have any code; codes
without a meaning are kept as they are. -/

namespace RpnY86

/-- The kind of a word. -/
inductive TokenKind where
  /-- The end of the expression. -/
  | eof
  /-- A kind for tokens made by hand; no text is of it. -/
  | error
  | number
  | plus
  | minus
  | asterisk
  | slash
  | mod
  | power
  | factorial
  | and
  | xor
  | dup
  | swap
  /-- A code without a meaning. -/
  | other (code : Int)
deriving DecidableEq, Repr

namespace TokenKind

/-- The kind with a given code. -/
def ofCode : Int → TokenKind
  | 0 => .eof
  | 1 => .error
  | 2 => .number
  | 3 => .plus
  | 4 => .minus
  | 5 => .asterisk
  | 6 => .slash
  | 7 => .mod
  | 8 => .power
  | 9 => .factorial
  | 10 => .and
  | 11 => .xor
  | 12 => .dup
  | 13 => .swap
  | n => .other n

/-- The name of a kind. -/
def name : TokenKind → String
  | .eof => "EOF"
  | .error => "ERROR"
  | .number => "NUMBER"
  | .plus => "PLUS"
  | .minus => "MINUS"
  | .asterisk => "ASTERISK"
  | .slash => "SLASH"
  | .mod => "MOD"
  | .power => "POWER"
  | .factorial => "FACTORIAL"
  | .and => "AND"
  | .xor => "XOR"
  | .dup => "DUP"
  | .swap => "SWAP"
  | .other code => "TokenType(" ++ Numeral.decimal code ++ ")"

end TokenKind

/-- A word of an expression: its kind, its text and the position of its first character. -/
structure Token where
  kind : TokenKind
  literal : String
  pos : Int
deriving DecidableEq, Repr

/-- A token in three columns. -/
def Token.describe (t : Token) : String :=
  Text.padRight 10 t.kind.name ++ " " ++ Text.padRight 8 (Text.quoted t.literal) ++
    "  pos " ++ Numeral.decimal t.pos

end RpnY86
