import RpnY86.Command.Request

/-! # Flags of the command line

A flag is a switch, an amount or a path. A switch needs no value. Flags are given by a long name
behind two dashes; some have a short name of one letter, too. -/

namespace RpnY86.Command

/-- A setting with an integer. -/
inductive Amount where
  | stackTop
  | stackSize
  | maxSteps
deriving DecidableEq, Repr

/-- A flag. -/
inductive Flag where
  | help
  | verbose
  | noColor
  | amount (a : Amount)
  | switch (s : Switch)
  | path (p : PathFlag)
deriving DecidableEq, Repr

namespace Flag

/-- The long name of a flag. -/
def name : Flag → String
  | .help => "help"
  | .verbose => "verbose"
  | .noColor => "no-color"
  | .amount .stackTop => "stack-top"
  | .amount .stackSize => "stack-size"
  | .amount .maxSteps => "max-steps"
  | .switch .stdin => "stdin"
  | .switch .force => "force"
  | .switch .regs => "regs"
  | .switch .run => "run"
  | .switch .json => "json"
  | .path .input => "input"
  | .path .output => "output"

/-- The short name of a flag. -/
def letter? : Flag → Option Char
  | .help => some 'h'
  | .verbose => some 'v'
  | .switch .force => some 'f'
  | .path .input => some 'i'
  | .path .output => some 'o'
  | _ => none

/-- Whether a flag needs no value. -/
def isSwitch : Flag → Bool
  | .help | .verbose | .noColor | .switch _ => true
  | .amount _ | .path _ => false

/-- All names of a flag, as shown in messages. -/
def names (f : Flag) : String :=
  match f.letter? with
  | some c => "-" ++ String.ofList [c] ++ ", --" ++ f.name
  | none => "--" ++ f.name

/-- The flags of every command, help apart. -/
def shared : List Flag :=
  [.verbose, .noColor, .amount .stackTop, .amount .stackSize, .amount .maxSteps]

/-- The flags of commands that read an expression. -/
def forInput : List Flag := [.path .input, .switch .stdin]

/-- The flags of commands that write a file. -/
def forOutput : List Flag := [.path .output, .switch .force]

end Flag

namespace Subcommand

/-- The command with a given name. -/
def ofName? (name : Text) : Option Subcommand :=
  [compile, run, asm, tokens, ir].find? fun c => Text.ofString c.name == name

/-- The flags of a command, help apart. -/
def flags : Subcommand → List Flag
  | .root | .compile => Flag.shared ++ Flag.forInput ++ Flag.forOutput
  | .run => Flag.shared ++ Flag.forInput ++ [.switch .regs]
  | .asm => Flag.shared ++ Flag.forOutput ++ [.switch .run]
  | .tokens | .ir => Flag.shared ++ Flag.forInput ++ [.switch .json]

end Subcommand

/-! ### Values -/

/-- The truth value that a text stands for. -/
def readTruth? (t : Text) : Option Bool :=
  if (["1", "t", "T", "TRUE", "true", "True"].map Text.ofString).contains t then some true
  else if (["0", "f", "F", "FALSE", "false", "False"].map Text.ofString).contains t then some false
  else none

/-- The integer of 64 bits that a text stands for. -/
def readAmount (cs : List Char) : Except Numeral.ReadError Int64 :=
  (Numeral.readSigned .marked 64 cs).map Int64.ofInt

/-- The flags given on a command line with their values, the latest first. -/
structure FlagValues where
  given : Given := {}
  globals : List (Flag × Bool) := []
  amounts : List (Amount × Int64) := []
deriving DecidableEq, Repr

/-! ### Errors -/

/-- What can be wrong with a value. -/
inductive ValueError where
  | amount (e : Numeral.ReadError)
  | truth
deriving DecidableEq, Repr

/-- The message about a value. -/
def ValueError.message (value : Text) : ValueError → String
  | .amount e => e.integerMessage value
  | .truth => Numeral.truthMessage value

/-- What can be wrong with the flags of a command line. -/
inductive FlagError where
  /-- Dashes without a name. -/
  | badForm (arg : Text)
  | unknown (name : Text)
  /-- No short name is the first byte of a group of letters. -/
  | unknownLetter (first : UInt8) (group : Text)
  | missingValue (arg : Text)
  | missingLetterValue (letter : Char)
  | invalidValue (f : Flag) (value : Text) (e : ValueError)
deriving DecidableEq, Repr

/-- The message about a flag. -/
def FlagError.message : FlagError → Text
  | .badForm arg => .ofString "bad flag syntax: " ++ arg
  | .unknown name => .ofString "unknown flag: --" ++ name
  | .unknownLetter first group =>
    .ofString ("unknown shorthand flag: " ++ Text.quotedChar (Char.ofNat first.toNat) ++ " in -") ++
      group
  | .missingValue arg => .ofString "flag needs an argument: " ++ arg
  | .missingLetterValue letter =>
    .ofString ("flag needs an argument: " ++ Text.quotedChar letter ++ " in -" ++
      String.ofList [letter])
  | .invalidValue f value e =>
    .ofString ("invalid argument " ++ Text.quotedText value ++ " for " ++ Text.quoted f.names ++
      " flag: " ++ e.message value)

/-- The flags with one more given. -/
def FlagValues.assign (vs : FlagValues) (f : Flag) (value : Text) : Except FlagError FlagValues :=
  let truth : Except FlagError Bool :=
    match readTruth? value with
    | some b => .ok b
    | none => .error (.invalidValue f value .truth)
  match f with
  | .help | .verbose | .noColor => do
    let b ← truth
    return { vs with globals := (f, b) :: vs.globals }
  | .switch s => do
    let b ← truth
    return { vs with given.switches := (s, b) :: vs.given.switches }
  | .amount a =>
    match readAmount (Text.chars value) with
    | .ok n => .ok { vs with amounts := (a, n) :: vs.amounts }
    | .error e => .error (.invalidValue f value (.amount e))
  | .path p => .ok { vs with given.paths := (p, Text.encode value) :: vs.given.paths }

end RpnY86.Command
