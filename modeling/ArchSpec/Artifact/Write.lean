import ArchSpec.Artifact.Basic
import ArchSpec.Cache.Stored

/-!
# Writing artifacts

Nothing is written unless all paths stay inside the output directory. A file that may be written
only once is left alone if it is there; so is, unless that is forced, a file of a component that
the cache remembers as it is. After the last file the cache is brought up to date.

* `Artifact.isPreserved` — whether a file is left alone.
* `WriteTask.run` — the whole task.
-/

namespace ArchSpec

/-- The paths that a run has written and those that it has left alone, in order. -/
structure WriteStats where
  written : List String
  skipped : List String
  deriving DecidableEq, Repr, Inhabited

namespace WriteStats

def total (s : WriteStats) : Nat := s.written.length + s.skipped.length

end WriteStats

namespace Artifact

/-- Refuse a path that leads out of the output directory. -/
def checkPath (directory : Path) (a : Artifact) : Except Fault Unit :=
  if Path.isArtifactPath a.path && Path.isSafe directory a.path then .ok ()
  else .error (.pathTraversal a.path)

/-- Whether a file that is there is left alone. Without a cache it is not known which components
are stale. -/
def isPreserved (force : Bool) (stale : Option (List String)) (a : Artifact) : Bool :=
  if a.file.strategy = .writeOnce then true
  else if force then false
  else match a.file.component, stale with
    | some id, some stale => !stale.contains id
    | _, _ => false

/-- The paths of the artifacts that belong to a component. -/
def pathsOf (id : String) (artifacts : List Artifact) : List String :=
  (artifacts.filter fun a => a.file.component = some id).map (·.path)

end Artifact

/-- Remember for every component that has artifacts which ones they are. -/
def Cache.recordArtifacts (c : Cache) (artifacts : List Artifact) : Cache :=
  (artifacts.filterMap (·.file.component)).foldl
    (fun c id => c.setArtifacts id (Artifact.pathsOf id artifacts)) c

/-- Where and how artifacts are written. -/
structure WriteTask where
  directory : Path
  /-- The cache file, if a cache is kept. -/
  cachePath : Option Path
  /-- Whether files of unchanged components are written too. -/
  force : Bool
  deriving DecidableEq, Repr

namespace WriteTask

variable {m : Type → Type} [Monad m] [FileStore m]

/-- Refuse paths that lead out of the output directory. -/
def checkPaths (t : WriteTask) : List Artifact → Except Fault Unit
  | [] => .ok ()
  | a :: rest =>
    match a.checkPath t.directory with
    | .ok () => t.checkPaths rest
    | .error f => .error f

/-- The path of the file of an artifact. -/
def target (t : WriteTask) (a : Artifact) : Path := Path.join t.directory a.path

/-- Write an artifact or leave its file alone; whether it was written. -/
def writeOne (t : WriteTask) (stale : Option (List String)) (a : Artifact) : Action m Bool := do
  if (← FileStore.existsAt (m := m) (t.target a)) && a.isPreserved t.force stale then return false
  Action.within ("Failed to write artifact " ++ a.path)
    (FileStore.replaceText (t.target a) a.file.content)
  return true

def writeAll (t : WriteTask) (stale : Option (List String)) :
    List Artifact → Action m WriteStats
  | [] => return ⟨[], []⟩
  | a :: rest => do
    let written ← t.writeOne stale a
    let stats ← t.writeAll stale rest
    return if written then { stats with written := a.path :: stats.written }
      else { stats with skipped := a.path :: stats.skipped }

/-- Write the artifacts of a model and bring the cache up to date. -/
def run (t : WriteTask) (model : Model) (artifacts : List Artifact) : Action m WriteStats := do
  Action.ofFault (t.checkPaths artifacts)
  match t.cachePath with
  | none => t.writeAll none artifacts
  | some path =>
    -- the cache is saved last, so that a run that fails leaves the old one
    let cache ← Cache.load path
    let stats ← t.writeAll (some (cache.staleComponents model)) artifacts
    ((cache.update model).recordArtifacts artifacts).save path
    return stats

end WriteTask

end ArchSpec
