import RpnY86.Command.Flag

/-! # Reading a command line

The first argument that is neither a flag nor the value of one names the command, if there is a
command of that name; otherwise the root command takes all arguments. Flags and other arguments may
be mixed, and everything behind `--` is no flag. A single dash is no flag either.

Short names may be grouped behind one dash. In a group, a switch takes one letter, and the first
flag that needs a value takes the rest of the group, or the next argument if the group ends
there. -/

namespace RpnY86.Command

/-- The flag with a given long name. -/
def findFlag? (known : List Flag) (name : Text) : Option Flag :=
  known.find? fun f => Text.ofString f.name == name

/-- The flag with a given short name. -/
def findLetter? (known : List Flag) (g : Glyph) : Option Flag :=
  known.find? fun f => f.letter?.any (g.is ·)

/-! ### The command -/

/-- Whether an argument has the form of a flag whose value is the next argument. That may be an
unknown flag, too. -/
def wantsValue (known : List Flag) (arg : Text) : Bool :=
  match arg with
  | .char '-' :: .char '-' :: name =>
    !name.contains (.char '=') && !(findFlag? known name).any Flag.isSwitch
  | [.char '-', g] =>
    !g.is '=' && g.bytes.length == 1 && !(findLetter? known g).any Flag.isSwitch
  | _ => false

/-- Two dashes, behind which there are no flags. -/
def endOfFlags : Text := .ofString "--"

/-- Whether an argument starts with a dash. -/
def startsWithDash (arg : Text) : Bool := arg.head?.any (·.is '-')

/-- The first argument that is neither a flag nor the value of one; with `skip`, the first argument
is such a value. The search is given up at a flag that wants a value and has no two arguments behind
it. -/
def firstWord? (known : List Flag) : (skip : Bool) → List Text → Option Text
  | _, [] => none
  | true, _ :: args => firstWord? known false args
  | false, arg :: args =>
    if arg = endOfFlags then none
    else if wantsValue known arg then
      if args.length ≤ 1 then none else firstWord? known true args
    else if arg ≠ [] ∧ !startsWithDash arg then some arg
    else firstWord? known false args

/-- The arguments without the first one that is `word` and no value of a flag. -/
def withoutWord (known : List Flag) (word : Text) : (skip : Bool) → List Text → List Text
  | _, [] => []
  | true, arg :: args => arg :: withoutWord known word false args
  | false, arg :: args =>
    if arg = endOfFlags then arg :: args
    else if wantsValue known arg then arg :: withoutWord known word true args
    else if arg = word ∧ !startsWithDash arg then args
    else arg :: withoutWord known word false args

/-- Words that ask for help or for the completion of words, and name no command. -/
def helpWords : List Text :=
  ["help", "completion", "__complete", "__completeNoDesc"].map Text.ofString

/-- The command of a command line, and the arguments without its name; nothing if only help is
wanted. The flag for help is not looked for here. -/
def findCommand? (args : List Text) : Option (Subcommand × List Text) :=
  let known := Subcommand.flags .root
  match firstWord? known false args with
  | none => some (.root, args)
  | some word =>
    if helpWords.contains word then none
    else
      match Subcommand.ofName? word with
      | some c => some (c, withoutWord known word false args)
      | none => some (.root, args)

/-! ### The flags -/

/-- Reads a flag with a long name, given without its dashes. `next` is the argument behind it; the
result says whether it is used up. -/
def readLong (known : List Flag) (vs : FlagValues) (arg body : Text) (next : Option Text) :
    Except FlagError (FlagValues × Bool) :=
  if body.head?.any fun g => g.is '-' || g.is '=' then .error (.badForm arg)
  else
    let name := body.takeWhile (!·.is '=')
    match findFlag? known name with
    | none => .error (.unknown name)
    | some f =>
      match body.dropWhile (!·.is '=') with
      | _ :: value => do return (← vs.assign f value, false)
      | [] =>
        if f.isSwitch then do return (← vs.assign f (.ofString "true"), false)
        else
          match next with
          | some value => do return (← vs.assign f value, true)
          | none => .error (.missingValue arg)

/-- A group of letters that is passed over. -/
def ignoredGroup : Text := .ofString "test."

/-- Reads a group of flags with short names, given without its dash. `next` is the argument behind
it; the result says whether it is used up. -/
def readGroup (known : List Flag) (next : Option Text) :
    FlagValues → Text → Except FlagError (FlagValues × Bool)
  | vs, [] => .ok (vs, false)
  | vs, g :: group =>
    if ignoredGroup.isPrefixOf (g :: group) then .ok (vs, false)
    else
      match findLetter? known g with
      | none => .error (.unknownLetter (g.bytes.headD 0) (g :: group))
      | some f =>
        match group with
        | .char '=' :: v :: value => do return (← vs.assign f (v :: value), false)
        | group => do
          if f.isSwitch then
            let vs ← vs.assign f (.ofString "true")
            readGroup known next vs group
          else
            match group, next with
            | [], some value => return (← vs.assign f value, true)
            | [], none => .error (.missingLetterValue g.toChar)
            | value, _ => return (← vs.assign f value, false)

/-- Reads arguments. With `skip`, the first one is the value of a flag already read. -/
def readArguments (known : List Flag) :
    (skip : Bool) → FlagValues → List Text → Except FlagError (FlagValues × List Text)
  | _, vs, [] => .ok (vs, [])
  | true, vs, _ :: args => readArguments known false vs args
  | false, vs, arg :: args =>
    match arg with
    | [.char '-', .char '-'] => .ok (vs, args)
    | .char '-' :: .char '-' :: body => do
      let (vs, taken) ← readLong known vs arg body args.head?
      readArguments known taken vs args
    | .char '-' :: g :: group => do
      let (vs, taken) ← readGroup known args.head? vs (g :: group)
      readArguments known taken vs args
    | _ => do
      let (vs, words) ← readArguments known false vs args
      return (vs, arg :: words)

/-! ### Settings

A flag wins over an environment variable, and a variable that is not empty wins over the default. A
variable that cannot be read counts as zero or as off. -/

/-- The environment variable of a flag. -/
def Flag.variable (f : Flag) : String :=
  "RPNC_" ++ String.ofList (f.name.toList.map fun c => if c = '-' then '_' else c.toUpper)

/-- The value of a flag's variable, if it is not empty. -/
def Environment.value? (env : Environment) (f : Flag) : Option Text :=
  ((env.lookup (.ofString f.variable)).filter (· ≠ [])).map Text.decode

/-- A number read from its end: what stands before a point that has only zeros behind it, at least
one. -/
def beforeZeros? : (zero : Bool) → List Char → Option (List Char)
  | zero, '.' :: cs => if zero then some cs else beforeZeros? zero cs
  | _, '0' :: cs => beforeZeros? true cs
  | _, _ => none

/-- A number without a fraction of zeros. -/
def withoutZeroFraction (cs : List Char) : List Char :=
  match beforeZeros? false cs.reverse with
  | some before => before.reverse
  | none => cs

/-- The integer of an environment variable. -/
def variableAmount (t : Text) : Int64 :=
  match readAmount (withoutZeroFraction (Text.chars t)) with
  | .ok n => n
  | .error _ => 0

/-- The value of an amount when nothing else is said. -/
def Amount.default : Amount → Int64
  | .stackTop => Code.StackRegion.defaultTop
  | .stackSize => Code.StackRegion.defaultSize
  | .maxSteps => 10000000

namespace FlagValues

/-- The value of an amount. -/
def amount (vs : FlagValues) (env : Environment) (a : Amount) : Int64 :=
  match vs.amounts.lookup a, env.value? (.amount a) with
  | some n, _ => n
  | none, some t => variableAmount t
  | none, none => a.default

/-- The value of a switch that all commands share. -/
def isOn (vs : FlagValues) (env : Environment) (f : Flag) : Bool :=
  match vs.globals.lookup f, env.value? f with
  | some b, _ => b
  | none, some t => (readTruth? t).getD false
  | none, none => false

/-- The settings of a command line in an environment. -/
def settings (vs : FlagValues) (env : Environment) : Settings where
  stackTop := vs.amount env .stackTop
  stackSize := vs.amount env .stackSize
  maxSteps := vs.amount env .maxSteps
  verbose := vs.isOn env .verbose
  noColor := vs.isOn env .noColor

/-- Whether help is asked for. -/
def wantsHelp (vs : FlagValues) : Bool := (vs.globals.lookup .help).getD false

end FlagValues

/-- What is shown to those who ask for help. -/
def usageLine (c : Subcommand) : String :=
  let argument := if c = .asm then "file.ys" else "[expression]"
  if c = .root then "Usage: rpnc " ++ argument ++ "\n"
  else "Usage: rpnc " ++ c.name ++ " " ++ argument ++ "\n"

/-- Reads a command line in an environment. -/
def readCommandLine (args : List Bytes) (env : Environment) : Reading :=
  match findCommand? (args.map Text.decode) with
  | none => .usage (.ofString (usageLine .root)) []
  | some (command, args) =>
    match readArguments (.help :: command.flags) false {} args with
    | .error e => .refused e.message
    | .ok (vs, words) =>
      if vs.wantsHelp then .usage (.ofString (usageLine command)) []
      else
        .request
          { command
            given := vs.given
            settings := vs.settings env
            words := words.map Text.encode }

end RpnY86.Command
