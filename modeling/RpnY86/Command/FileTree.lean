import RpnY86.Command.File

/-! # A tree of files

Files in memory. A directory exists if a file lies somewhere below it. Besides, there are the
working directory and those above it, and in the root a directory for temporary files and the null
device.

A path is followed name by name, and the first name that leads nowhere decides the error. Its last
name is looked at by the operation itself. For reading, a slash behind it asks for a directory; for
writing, it makes the path one of a directory, which cannot be written.

A place is a list of names below a directory that paths start from. Where the working directory lies
is not known, so the directories above it are counted and not named. -/

namespace RpnY86.Command

/-- The byte between the names of a path. -/
def slash : UInt8 := '/'.toUInt8

/-- The byte of a point. -/
def dot : UInt8 := '.'.toUInt8

/-! ### Places -/

/-- A directory that paths start from. -/
inductive Origin where
  /-- The directory `n` levels above the working directory; for `0`, the working directory. -/
  | above (n : Nat)
  /-- The directory that has none above it. -/
  | root
deriving DecidableEq, Repr

/-- The directory above an origin. The root is above itself. -/
def Origin.parent : Origin → Origin
  | .above n => .above (n + 1)
  | .root => .root

/-- A place: names, one below the other, under an origin. -/
structure Place where
  origin : Origin
  names : List Bytes
deriving DecidableEq, Repr

namespace Place

/-- The working directory. -/
def working : Place := ⟨.above 0, []⟩

/-- The root directory. -/
def root : Place := ⟨.root, []⟩

/-- The place of a name in a directory. -/
def child (p : Place) (name : Bytes) : Place := { p with names := p.names ++ [name] }

/-- The directory above a place. -/
def parent (p : Place) : Place :=
  if p.names.isEmpty then { p with origin := p.origin.parent }
  else { p with names := p.names.dropLast }

/-- Whether a place lies somewhere below another. -/
def isBelow (p dir : Place) : Bool :=
  p.origin == dir.origin && dir.names.isPrefixOf p.names && p.names != dir.names

/-- The place that a name leads to, whether it exists or not. -/
def follow (p : Place) (name : Bytes) : Place :=
  if name = [] ∨ name = [dot] then p else if name = [dot, dot] then p.parent else p.child name

/-- The place of a path in the working directory. -/
def ofPath (path : Bytes) : Place := (path.splitOn slash).foldl follow working

/-- The path from the working directory, for a place below it. -/
def path? (p : Place) : Option Bytes :=
  if p.isBelow working then some ([slash].intercalate p.names) else none

end Place

/-! ### Trees -/

/-- Files with their contents. -/
structure FileTree where
  files : List (Place × Bytes)
deriving DecidableEq, Repr

/-- What is found at a place. -/
inductive Entry where
  | directory
  | file (content : Bytes)
  /-- A device that is always empty and takes everything. -/
  | sink
deriving DecidableEq, Repr

/-- What a path leads to. -/
inductive Target where
  /-- A directory, for a path that does not end in a name. -/
  | directory
  /-- A name in a directory that exists. `slashed` says that a slash stands behind the name. -/
  | entry (dir : Place) (name : Bytes) (slashed : Bool)
deriving DecidableEq, Repr

/-- The device that is always empty. -/
def nullDevice : Place := (Place.root.child (.ofString "dev")).child (.ofString "null")

/-- The directory of temporary files. -/
def temporaryDirectory : Place := Place.root.child (.ofString "tmp")

/-- The greatest number of bytes in a name. -/
def maxNameSize : Nat := 255

/-- A number of bytes that a path stays below. -/
def pathSizeLimit : Nat := 4096

namespace FileTree

/-- The content of a file. -/
def content? (t : FileTree) (p : Place) : Option Bytes := t.files.lookup p

/-- Whether a place is a directory. -/
def isDirectory (t : FileTree) (p : Place) : Bool :=
  p.names.isEmpty || p == temporaryDirectory || nullDevice.isBelow p ||
    t.files.any fun (q, _) => q.isBelow p

/-- What is found at a place. -/
def entry? (t : FileTree) (p : Place) : Option Entry :=
  if t.isDirectory p then some .directory
  else if p = nullDevice then some .sink
  else (t.content? p).map .file

/-- The tree with a new content for a file. -/
def put (t : FileTree) (p : Place) (bs : Bytes) : FileTree :=
  ⟨(p, bs) :: t.files.filter (·.1 != p)⟩

/-- The tree of files given by paths in the working directory. -/
def ofFiles (files : List (Bytes × Bytes)) : FileTree :=
  files.foldl (fun t (path, bs) => t.put (.ofPath path) bs) ⟨[]⟩

/-- The files below the working directory that are new or have changed since `before`, by their
paths. -/
def changesSince (t before : FileTree) : List (Bytes × Bytes) :=
  t.files.filterMap fun (p, bs) =>
    if before.content? p = some bs then none else p.path?.map (·, bs)

/-! ### Following paths -/

/-- Follows names from a directory, up to the last one. -/
def walk (t : FileTree) (dir : Place) : List Bytes → Except FileProblem Target
  | [] => .ok .directory
  | name :: names =>
    if name = [] ∨ name = [dot] ∨ name = [dot, dot] then t.walk (dir.follow name) names
    else if names.all List.isEmpty then .ok (.entry dir name (!names.isEmpty))
    else if maxNameSize < name.length then .error .nameTooLong
    else
      match t.entry? (dir.child name) with
      | some .directory => t.walk (dir.child name) names
      | some _ => .error .notDirectory
      | none => .error .notFound

/-- What a path leads to. -/
def target (t : FileTree) (path : Bytes) : Except FileProblem Target :=
  if path = [] then .error .notFound
  else if path.contains 0 then .error .invalidName
  else if pathSizeLimit ≤ path.length then .error .nameTooLong
  else t.walk (if path.head? = some slash then .root else .working) (path.splitOn slash)

/-- What is found at the end of a path. -/
def locate (t : FileTree) (path : Bytes) : Except FileProblem Entry := do
  match ← t.target path with
  | .directory => .ok .directory
  | .entry dir name slashed =>
    if maxNameSize < name.length then .error .nameTooLong
    else
      match t.entry? (dir.child name) with
      | none => .error .notFound
      | some .directory => .ok .directory
      | some e => if slashed then .error .notDirectory else .ok e

/-- The tree with a new content at the end of a path. -/
def replace (t : FileTree) (path : Bytes) (bs : Bytes) : Except FileProblem FileTree := do
  match ← t.target path with
  | .directory => .error .isDirectory
  | .entry dir name slashed =>
    if slashed then .error .isDirectory
    else if maxNameSize < name.length then .error .nameTooLong
    else
      match t.entry? (dir.child name) with
      | some .directory => .error .isDirectory
      | some .sink => .ok t
      | some (.file _) | none => .ok (t.put (dir.child name) bs)

/-! ### Operations -/

/-- Reads a file. A directory can be opened, but not read. -/
def readFile (t : FileTree) (path : Bytes) : Except FileError Bytes :=
  match t.locate path with
  | .error problem => .error { action := .opening, path, problem }
  | .ok .directory => .error { action := .reading, path, problem := .isDirectory }
  | .ok (.file bs) => .ok bs
  | .ok .sink => .ok []

/-- Looks whether there is something at a path. -/
def examine (t : FileTree) (path : Bytes) : Except FileError Unit :=
  match t.locate path with
  | .error problem => .error { action := .examining, path, problem }
  | .ok _ => .ok ()

/-- Writes a file. -/
def writeFile (t : FileTree) (path : Bytes) (bs : Bytes) : Except FileError FileTree :=
  match t.replace path bs with
  | .error problem => .error { action := .opening, path, problem }
  | .ok t => .ok t

end FileTree

/-- A system in memory: files, what waits on standard input, and what was written. -/
structure World where
  tree : FileTree
  input : Except FileError Bytes
  out : Bytes := []
  err : Bytes := []

/-- A host whose files are a tree in memory. The clock stands still. -/
def World.host (terminal : Bool) (time : String) : Host (StateM World) where
  readFile path := do return (← get).tree.readFile path
  examine path := do return (← get).tree.examine path
  writeFile path bs := do
    let w ← get
    match w.tree.writeFile path bs with
    | .ok tree =>
      set { w with tree }
      return .ok ()
    | .error e => return .error e
  readInput := do
    let w ← get
    set { w with input := .ok [] }
    return w.input
  terminal := terminal
  putOut bs := modify fun w => { w with out := w.out ++ bs }
  putErr bs := modify fun w => { w with err := w.err ++ bs }
  clock := return time

end RpnY86.Command
