import ArchSpec.Command.Run

/-!
# The program

Files, arguments and the console; what is done with them is said elsewhere.
-/

namespace ArchSpec

def IoError.ofSystem : IO.Error → IoError
  | .noFileOrDirectory .. => .notFound
  | .permissionDenied .. => ⟨.permissionDenied, "Permission denied (os error 13)"⟩
  | .alreadyExists .. => .alreadyExists
  | .inappropriateType _ code _ => if code = 20 then .notADirectory else .isADirectory
  | e => ⟨.other, toString e⟩

/-- The result of an action of the system. -/
def fromSystem {α : Type} (x : IO α) : IO (Except IoError α) := do
  return (← x.toBaseIO).mapError .ofSystem

instance : FileStore IO where
  existsAt p := (System.mkFilePath [p]).pathExists
  isDirectory p := (System.mkFilePath [p]).isDir
  readText p := fromSystem (IO.FS.readFile p)
  createFile p := fromSystem (IO.FS.writeFile p "")
  writeText p text := fromSystem (IO.FS.writeFile p text)
  syncFile p := fromSystem do
    let file ← IO.FS.Handle.mk p .append
    file.flush
  rename source target := fromSystem (IO.FS.rename source target)
  makeDirectories p := fromSystem (IO.FS.createDirAll p)

end ArchSpec

/-- The program; its result is its exit code. -/
def main (args : List String) : IO UInt32 := do
  let answer ← (ArchSpec.runProgram args : IO ArchSpec.Answer)
  IO.print answer.text
  IO.eprint answer.problem
  return answer.code.toUInt32
