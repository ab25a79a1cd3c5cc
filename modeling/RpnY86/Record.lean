import RpnY86.Text.Quoted

/-! # Records and log events

A record is a list of named values. It is written as a JSON object, on one line or over several. A
log event is a record with a message. -/

namespace RpnY86.Record

/-- A value of a record. -/
inductive Value where
  | number (n : Int)
  | text (s : String)
deriving DecidableEq, Repr

/-- The characters that stand for `c` in a JSON string. -/
def jsonChar (c : Char) : List Char :=
  if c = Text.doubleMark ∨ c = '\\' then ['\\', c]
  else if c.toNat = 8 then ['\\', 'b']
  else if c.toNat = 12 then ['\\', 'f']
  else if c.toNat = 10 then ['\\', 'n']
  else if c.toNat = 13 then ['\\', 'r']
  else if c.toNat = 9 then ['\\', 't']
  else if c.toNat < 32 then Text.codeEscape 'u' 4 c
  else [c]

/-- A JSON string. -/
def jsonString (s : String) : String :=
  String.ofList (Text.doubleMark :: s.toList.flatMap jsonChar ++ [Text.doubleMark])

/-- A value as JSON. -/
def Value.json : Value → String
  | .number n => Numeral.decimal n
  | .text s => jsonString s

/-- The opening brace. -/
def openBrace : String := "\x7b"

/-- The closing brace. -/
def closeBrace : String := "\x7d"

/-- A record on one line. -/
def compact (fields : List (String × Value)) : String :=
  openBrace ++ ",".intercalate (fields.map fun (name, v) => jsonString name ++ ":" ++ v.json) ++
    closeBrace

/-- A record of at least one value, with a line for each, inside a list. -/
def indented (fields : List (String × Value)) : String :=
  "  " ++ openBrace ++ "\n" ++
    ",\n".intercalate (fields.map fun (name, v) => "    " ++ jsonString name ++ ": " ++ v.json) ++
    "\n  " ++ closeBrace

/-- A list of at least one record, over several lines. -/
def indentedList (records : List (List (String × Value))) : String :=
  "[\n" ++ ",\n".intercalate (records.map indented) ++ "\n]"

end RpnY86.Record

namespace RpnY86.Log

open Record (Value)

/-- An event. -/
structure Event where
  fields : List (String × Value)
  message : String
deriving DecidableEq, Repr

/-- The event of a failure. -/
def failure (message error : String) : Event where
  fields := [("error", .text error)]
  message := message

/-- The event with one more value. -/
def Event.add (e : Event) (name : String) (v : Value) : Event :=
  { e with fields := (name, v) :: e.fields }

/-- An event as a line of JSON, without its end: the level, the values, the message. -/
def Event.json (e : Event) : String :=
  Record.compact (("level", .text "debug") :: e.fields ++ [("message", .text e.message)])

end RpnY86.Log
