import ArchSpec.FileTree

/-!
# Stores of files

A program that works with files says only what it does with them: `FileStore` lists the actions
that there are. A tree of files as a state is one such store, which makes every program a function
from trees to trees.

* `Action` — a program that may fail, and whose effects stay if it does.
-/

namespace ArchSpec

/-- What a program may do with files. -/
class FileStore (m : Type → Type) where
  /-- Whether there is anything at a path. -/
  existsAt : Path → m Bool
  /-- Whether there is a directory at a path. -/
  isDirectory : Path → m Bool
  /-- The text of a file. -/
  readText : Path → m (Except IoError String)
  /-- Make a file without a text, in place of one that is there. -/
  createFile : Path → m (Except IoError Unit)
  /-- Make a file hold a text. -/
  writeText : Path → String → m (Except IoError Unit)
  /-- Wait until what has been written to a file is on the device. -/
  syncFile : Path → m (Except IoError Unit)
  /-- Give the file at the first path the second one as its name, over a file that is there. -/
  rename : Path → Path → m (Except IoError Unit)
  /-- Make a directory and those before it. -/
  makeDirectories : Path → m (Except IoError Unit)

/-- A program that may fail; what it has done to files by then stays. -/
abbrev Action (m : Type → Type) (α : Type) : Type := ExceptT Failure m α

namespace Action

variable {m : Type → Type} [Monad m] {α : Type}

/-- An action on files as a program, which fails while doing `what`. -/
def ofStore (what : String) (x : m (Except IoError α)) : Action m α :=
  ExceptT.mk do return (← x).mapError (Failure.ofIo · what)

/-- A program that succeeds or fails at once. -/
def ofFault (x : Except Fault α) : Action m α := ExceptT.mk (pure (x.mapError Failure.ofFault))

/-- Fail for a declared reason. -/
def fail (f : Fault) : Action m α := throw (Failure.ofFault f)

/-- Say what a program is doing, if it fails. -/
def within (what : String) (x : Action m α) : Action m α := x.adapt (Failure.within what)

end Action

/-! ## Trees as stores -/

namespace FileTree

/-- A change of a tree; a change that fails leaves the tree as it is. -/
def change (f : FileTree → Except IoError FileTree) : StateM FileTree (Except IoError Unit) :=
  fun t => match f t with
    | .ok t => (.ok (), t)
    | .error e => (.error e, t)

instance : FileStore (StateM FileTree) where
  existsAt p := fun t => (t.existsAt p, t)
  isDirectory p := fun t => (t.isDirectory p, t)
  readText p := fun t => (t.readText p, t)
  createFile p := change (·.writeText p "")
  writeText p text := change (·.writeText p text)
  syncFile _ := pure (.ok ())
  rename source target := change (·.rename source target)
  makeDirectories p := fun t => t.makeDirectories p

end FileTree

end ArchSpec
