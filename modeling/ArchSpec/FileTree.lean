import ArchSpec.Path
import ArchSpec.Failure

/-!
# A tree of files

The file system as a value: directories and text files under absolute locations, and a working
directory for relative paths. There are no links. Two dots lead to the parent of the directory
reached so far, so the directory before them has to exist.

* `FileTree.find?` — what is at a location.
* `FileTree.resolve` — the location that a path names, or why it names none.
* `readText`, `writeText`, `rename`, `makeDirectories`, `remove` — what can be done with it.
-/

namespace ArchSpec

/-- The names that lead from the root to a place. -/
abbrev Location := List String

/-- What can stand at a location. -/
inductive Entry where
  | directory
  | file (text : String)
  deriving DecidableEq, Repr

/-- A file system: its entries below the root, and the working directory. -/
structure FileTree where
  entries : List (Location × Entry)
  workingDirectory : Location
  deriving Repr

namespace FileTree

/-- What is at a location; the root is a directory. -/
def find? (t : FileTree) (l : Location) : Option Entry :=
  if l = [] then some .directory else t.entries.lookup l

/-- Put an entry at a location, over an earlier one. -/
def put (t : FileTree) (l : Location) (e : Entry) : FileTree :=
  { t with entries := (l, e) :: t.entries.filter (·.1 ≠ l) }

/-- Take a location and all below it out of the tree. -/
def prune (t : FileTree) (l : Location) : FileTree :=
  { t with entries := t.entries.filter fun e => !l.isPrefixOf e.1 }

/-! ## From paths to locations -/

/-- The names of a path as they are followed one by one. A trailing separator asks for a directory,
as a trailing dot does. -/
def route (p : Path) : List String :=
  let pieces := Text.split '/' p
  let names := pieces.filter (· ≠ "")
  if pieces.getLast? = some "" then names ++ ["."] else names

/-- The longest name and the longest path, in bytes. -/
def maxName : Nat := 255
def maxPath : Nat := 4095

/-- Follow one name from a directory. -/
def follow (t : FileTree) (l : Location) (name : String) : Except IoError Location :=
  match t.find? l with
  | none => .error .notFound
  | some (.file _) => .error .notADirectory
  | some .directory =>
    if name = "." then .ok l
    else if name = ".." then .ok l.dropLast
    else if name.utf8ByteSize > maxName then .error .nameTooLong
    else .ok (l ++ [name])

/-- Where a path starts, if it is a path at all. -/
def start (t : FileTree) (p : Path) : Except IoError Location :=
  if p.toList.contains '\x00' then .error .nulInName
  else if p.utf8ByteSize > maxPath then .error .nameTooLong
  else if p.isEmpty then .error .notFound
  else if Path.isAbsolute p then .ok []
  else .ok t.workingDirectory

/-- The location of a path; nothing needs to be there, but all before it has to be a directory. -/
def resolve (t : FileTree) (p : Path) : Except IoError Location := do
  (route p).foldlM (t.follow) (← t.start p)

def entryAt (t : FileTree) (p : Path) : Except IoError Entry := do
  match t.find? (← t.resolve p) with
  | none => throw .notFound
  | some e => return e

/-- Whether there is anything at a path. -/
def existsAt (t : FileTree) (p : Path) : Bool := (t.entryAt p).isOk

/-- Whether there is a directory at a path. -/
def isDirectory (t : FileTree) (p : Path) : Bool :=
  match t.entryAt p with
  | .ok .directory => true
  | _ => false

/-- Whether a path ends in a name rather than in dots or a separator. -/
def endsInName (p : Path) : Bool :=
  match (route p).getLast? with
  | none => false
  | some n => n ≠ "." && n ≠ ".."

/-! ## Reading and changing files -/

/-- The text of the file at a path. -/
def readText (t : FileTree) (p : Path) : Except IoError String := do
  match ← t.entryAt p with
  | .directory => throw .isADirectory
  | .file text => return text

/-- Make the file at a path hold a text. -/
def writeText (t : FileTree) (p : Path) (text : String) : Except IoError FileTree := do
  let l ← t.resolve p
  if !endsInName p then throw .isADirectory
  match t.find? l with
  | some .directory => throw .isADirectory
  | _ => return t.put l (.file text)

/-- Give the file at `source` the name `target`, over a file that is there. -/
def rename (t : FileTree) (source target : Path) : Except IoError FileTree := do
  let text ← t.readText source
  let s ← t.resolve source
  let last := (Text.split '/' target).getLast?
  if last = some "." ∨ last = some ".." then
    let _ ← t.resolve target
    throw .busy
  if last = some "" then
    let _ ← t.resolve (String.ofList (target.toList.reverse.dropWhile (· = '/')).reverse)
    throw .notADirectory
  let l ← t.resolve target
  match t.find? l with
  | some .directory => throw .isADirectory
  | _ => return (t.prune s).put l (.file text)

/-- Make one directory. -/
def makeDirectory (t : FileTree) (p : Path) : Except IoError FileTree := do
  let trimmed := String.ofList (p.toList.reverse.dropWhile (· = '/')).reverse
  let l ← t.resolve (if trimmed.isEmpty then p else trimmed)
  match t.find? l with
  | some _ => throw .alreadyExists
  | none => return t.put l .directory

/-- An error that does not count if there is a directory at the path. -/
def unlessDirectory (t : FileTree) (p : Path) (e : IoError) : Except IoError Unit :=
  if t.isDirectory p then .ok () else .error e

/-- Make the directory at a path and those before it. Of the results, the tree counts also when
the making fails half-way. `fuel` bounds the number of directories before it. -/
def makeDirectoriesWithin (t : FileTree) (p : Path) : Nat → Except IoError Unit × FileTree
  | 0 => (.ok (), t)
  | fuel + 1 =>
    if p.isEmpty then (.ok (), t)
    else
      match t.makeDirectory p with
      | .ok t => (.ok (), t)
      | .error e =>
        if e ≠ .notFound then (t.unlessDirectory p e, t)
        else
          match Path.parent? p with
          | none => (.error ⟨.other, "failed to create whole tree"⟩, t)
          | some parent =>
            match makeDirectoriesWithin t parent fuel with
            | (.error e, t) => (.error e, t)
            | (.ok (), t) =>
              match t.makeDirectory p with
              | .ok t => (.ok (), t)
              | .error e => (t.unlessDirectory p e, t)

/-- Make the directory at a path and those before it. -/
def makeDirectories (t : FileTree) (p : Path) : Except IoError Unit × FileTree :=
  t.makeDirectoriesWithin p (p.length + 1)

/-- Take the file or directory at a path out of the tree. -/
def remove (t : FileTree) (p : Path) : Except IoError FileTree := do
  let l ← t.resolve p
  match t.find? l with
  | none => throw .notFound
  | some _ => return t.prune l

/-- The paths of the files below a location, relative to it, in order. -/
def filesBelow (t : FileTree) (l : Location) : List Path :=
  let below := t.entries.filterMap fun e =>
    match e.2 with
    | .directory => none
    | .file _ =>
      if l.isPrefixOf e.1 then some (String.intercalate "/" (e.1.drop l.length)) else none
  below.mergeSort (fun a b => decide (a ≤ b))

/-- A tree with nothing but the working directory and the directories before it. -/
def fresh (workingDirectory : Location) : FileTree :=
  ⟨(List.range workingDirectory.length).map fun i => (workingDirectory.take (i + 1), .directory),
    workingDirectory⟩

end FileTree

end ArchSpec
