import RpnY86.Command.Arguments

/-! # The standard toolkit

How the program reads its command line and sets its output. A table has columns as wide as their
widest cell, all cells are left-aligned, and header and footer are in upper case. A line of the log
has its values sorted by name, an error coming first. Colours are control sequences around the
text. -/

namespace RpnY86.Command

/-! ### Colours -/

/-- Text between two control sequences. -/
def between (before after : String) (t : Text) : Text := .ofString before ++ t ++ .ofString after

/-- Text in colours. -/
def Palette.colored : Palette where
  red := between "\x1b[31m" "\x1b[0m"
  green := between "\x1b[32m" "\x1b[0m"
  bold := between "\x1b[1m" "\x1b[22m"

/-- Text as it is. -/
def Palette.plain : Palette where
  red := id
  green := id
  bold := id

/-! ### Tables -/

namespace Table

/-- The header as shown. -/
def shownHeader (t : Table) : List String := t.header.map String.toUpper

/-- The footer as shown. -/
def shownFooter (t : Table) : List String := t.footer.map String.toUpper

/-- The widths of the columns. -/
def widths (t : Table) : List Nat :=
  (t.shownFooter :: t.groups.flatten).foldl
    (fun ws row => ws.zipWith max (row.map String.length)) (t.shownHeader.map String.length)

/-- A horizontal line with a mark at each column's end. -/
def rule (ws : List Nat) : String :=
  "+" ++ String.join (ws.map fun w => String.ofList (List.replicate (w + 2) '-') ++ "+")

/-- A row of cells. -/
def row (ws : List Nat) (cells : List String) : String :=
  "|" ++ String.join ((ws.zip cells).map fun (w, s) => " " ++ Text.padRight w s ++ " |")

/-- A table as text. The title spans all columns. -/
def render (t : Table) : String :=
  let ws := t.widths
  let inner := ws.foldl (· + · + 3) 0 - 3
  let body := t.groups.flatMap fun g => g.map (row ws) ++ [rule ws]
  "\n".intercalate
    ([rule [inner], row [inner] [t.title], rule ws, row ws t.shownHeader, rule ws] ++ body ++
      [row ws t.shownFooter, rule ws])

end Table

/-! ### Records in colours -/

/-- The name of a value in colours. -/
def coloredName (name : String) : String :=
  "\x1b[34;1m" ++ Record.jsonString name ++ "\x1b[0;22m"

/-- A value in colours. -/
def coloredValue : Record.Value → String
  | .number n => "\x1b[36;1m" ++ Numeral.decimal n ++ "\x1b[0;22m"
  | .text s => "\x1b[32;1m" ++ Record.jsonString s ++ "\x1b[0;22m"

/-- A record of at least one value in colours, sorted by name, inside a list. -/
def coloredRecord (fields : List (String × Record.Value)) : String :=
  let fields := fields.mergeSort fun a b => decide (a.1 ≤ b.1)
  "  " ++ Record.openBrace ++ "\n" ++
    ",\n".intercalate
      (fields.map fun (name, v) => "    " ++ coloredName name ++ ": " ++ coloredValue v) ++
    "\n  " ++ Record.closeBrace

/-- A list of at least one record in colours. -/
def coloredRecords (records : List (List (String × Record.Value))) : String :=
  "[\n" ++ ",\n".intercalate (records.map coloredRecord) ++ "\n]"

/-! ### Lines of the log -/

/-- Whether a text has a character that calls for quotation marks: a control, a character beyond
ASCII, a space, a backslash or a quotation mark. -/
def needsQuotes (s : String) : Bool :=
  s.toList.any fun c => c.toNat ≤ 32 || 126 < c.toNat || c == '\\' || c == Text.doubleMark

/-- A value in a line of the log. -/
def loggedValue : Record.Value → String
  | .number n => Numeral.decimal n
  | .text s => if needsQuotes s then Text.quoted s else s

/-- The order of values in a line of the log. -/
def comesBefore (a b : String × Record.Value) : Bool :=
  a.1 == "error" || (b.1 != "error" && a.1 ≤ b.1)

/-- An event as a line of the log. -/
def logLine (time : String) (e : Log.Event) : String :=
  time ++ " DBG " ++ e.message ++
    String.join ((e.fields.mergeSort comesBefore).map fun (name, v) =>
      " " ++ name ++ "=" ++ loggedValue v)

/-! ### The toolkit -/

/-- The standard toolkit. Lines of the log are never coloured. -/
def Toolkit.standard (plain : Bool) : Toolkit where
  read := readCommandLine
  plain := plain
  palette plain := if plain then .plain else .colored
  table t := .ofString t.render
  records rs := .ofString (coloredRecords rs)
  line _ time e := .ofString (logLine time e)

end RpnY86.Command
