import ArchSpec.FileStore.Basic
import ArchSpec.OpenApi.Contract
import ArchSpec.Specification.Basic

/-!
# Files that are read

* `Specification.load` — the specification in a file.
* `Contract.load` — the contract in a file.
-/

namespace ArchSpec

variable {m : Type → Type} [Monad m] [FileStore m]

def Specification.load (path : Path) : Action m Specification := do
  if !(← FileStore.existsAt (m := m) path) then Action.fail (.specNotFound path)
  let source ← Action.ofStore ("Failed to read specification: " ++ path) (FileStore.readText path)
  Action.ofFault (Specification.parseFile source path)

def Contract.load (path : Path) : Action m Contract := do
  let source ← Action.ofStore ("failed to read " ++ path) (FileStore.readText path)
  ExceptT.mk (pure (OpenApi.contract source))

/-- The contracts at paths, or why there are none. -/
def Contract.loadAll : List Path → m (List (Path × Except Failure Contract))
  | [] => return []
  | path :: rest => do
    let contract ← (Contract.load path).run
    return (path, contract) :: (← Contract.loadAll rest)

end ArchSpec
