import ArchSpec.FileStore.Basic

/-!
# Replacing the text of a file

A new text is written to a temporary file beside the target, which then takes the name of the
target. Whoever reads the target finds the old text or the new one.

* `FileStore.temporaryPath` — the temporary file of a target.
* `FileStore.writeTemporary` — a text is written to it.
* `FileStore.replaceText` — the replacement.
-/

namespace ArchSpec.FileStore

variable {m : Type → Type} [Monad m] [FileStore m]

/-- The temporary file of a target. The whole name counts, so that two targets in one directory
have two temporary files. -/
def temporaryPath (p : Path) : Path := Path.withFileName p ((Path.fileName? p).getD "" ++ ".tmp")

/-- Make sure that there is a directory at a path. -/
def ensureDirectory (p : Path) : Action m Unit := do
  if !(← existsAt (m := m) p) then
    Action.ofStore ("Failed to create directory: " ++ p ++
      "\n\nCheck directory permissions and path validity") (makeDirectories p)
  else if !(← isDirectory (m := m) p) then
    throw (.plain ("Path exists but is not a directory: " ++ p))

/-- Make sure that there is a directory for the file at a path. -/
def ensureParent (p : Path) : Action m Unit :=
  match Path.parent? p with
  | none => pure ()
  | some parent => if parent.isEmpty then pure () else ensureDirectory parent

/-- Create the temporary file at a path, write a text to it, and wait until the text is on the
device. -/
def writeTemporary (p : Path) (text : String) : Action m Unit := do
  Action.ofStore ("Failed to create temp file: " ++ p ++
    "\n\nCheck file permissions and that directory exists") (createFile p)
  Action.ofStore ("Failed to write to temp file: " ++ p) (writeText p text)
  Action.ofStore "Failed to sync file to disk" (syncFile p)

/-- Make the file at a path hold a text, in one step for those who read it. -/
def replaceText (p : Path) (text : String) : Action m Unit := do
  ensureParent p
  let temporary := temporaryPath p
  writeTemporary temporary text
  Action.ofStore ("Failed to rename temp file to: " ++ p) (rename temporary p)

end ArchSpec.FileStore
