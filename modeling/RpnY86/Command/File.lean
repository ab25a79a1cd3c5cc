import RpnY86.Text.Glyph

/-! # Files

What a command needs from outside: files, standard input, two streams to write to, and a clock.
`Host` gives these operations in any monad, so that commands can be run on a real system and be
reasoned about on a tree of files in memory. Paths and contents are any bytes. -/

namespace RpnY86.Command

/-- A sequence of bytes: a path, an argument, the content of a file. -/
abbrev Bytes : Type := List UInt8

/-- The bytes of a string. -/
def Bytes.ofString (s : String) : Bytes := Text.encode (.ofString s)

/-- Why a file operation fails. -/
inductive FileProblem where
  | notFound
  | notDirectory
  | isDirectory
  | nameTooLong
  | invalidName
  | other (text : String)
deriving DecidableEq, Repr

/-- The system's words for a problem. -/
def FileProblem.message : FileProblem → String
  | .notFound => "no such file or directory"
  | .notDirectory => "not a directory"
  | .isDirectory => "is a directory"
  | .nameTooLong => "file name too long"
  | .invalidName => "invalid argument"
  | .other text => text

/-- What was being done to a file. -/
inductive FileAction where
  | opening
  | reading
  | examining
deriving DecidableEq, Repr

/-- The system's word for an action. -/
def FileAction.name : FileAction → String
  | .opening => "open"
  | .reading => "read"
  | .examining => "stat"

/-- A file operation that failed. -/
structure FileError where
  action : FileAction
  path : Bytes
  problem : FileProblem
deriving DecidableEq, Repr

/-- The message of a failed file operation. -/
def FileError.message (e : FileError) : Text :=
  .ofString (e.action.name ++ " ") ++ Text.decode e.path ++ .ofString (": " ++ e.problem.message)

/-- The operations that a command needs from outside. -/
structure Host (m : Type → Type) where
  /-- The content of a file. -/
  readFile : Bytes → m (Except FileError Bytes)
  /-- Whether there is something at a path; the error is `notFound` if there is nothing. -/
  examine : Bytes → m (Except FileError Unit)
  /-- Gives a file a new content, and makes it if need be. -/
  writeFile : Bytes → Bytes → m (Except FileError Unit)
  /-- Everything on standard input. -/
  readInput : m (Except FileError Bytes)
  /-- Whether standard output is shown to somebody, and not kept in a file. -/
  terminal : Bool
  /-- Writes to standard output. -/
  putOut : Bytes → m Unit
  /-- Writes to standard error. -/
  putErr : Bytes → m Unit
  /-- The time of day, as lines of a log show it. -/
  clock : m String

end RpnY86.Command
