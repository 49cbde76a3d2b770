import ArchSpec.Artifact.Basic
import ArchSpec.Failure

/-!
# Plans

A plan collects what all generators make. Every path belongs to the one that claims it first; a
second claim is refused and changes nothing.

* `Plan.add` — one more file.
* `Plan.addAll` — the files of a generator, up to the first that is refused.
-/

namespace ArchSpec

/-- Artifacts by their paths. -/
structure Plan where
  byPath : SortedMap Artifact
  deriving Inhabited

namespace Plan

def empty : Plan := ⟨.empty⟩

/-- What a file without a path is refused with. -/
def emptyPath (owner : String) : Fault :=
  .other ("generator \"" ++ owner ++ "\" planned an artifact with an empty path")

def add (p : Plan) (owner path : String) (file : GeneratedFile) : Except Fault Plan :=
  if path.isEmpty then .error (emptyPath owner)
  else match p.byPath.get? path with
    | some earlier => .error (.artifactConflict path earlier.owner owner)
    | none => .ok ⟨p.byPath.insert path ⟨owner, path, file⟩⟩

/-- Add files of a generator in order, up to the first that is refused. -/
def addEntries (p : Plan) (owner : String) :
    List (String × GeneratedFile) → Plan × Except Fault Unit
  | [] => (p, .ok ())
  | (path, file) :: rest =>
    match p.add owner path file with
    | .ok p => p.addEntries owner rest
    | .error f => (p, .error f)

/-- Add the files of a generator in the order of their paths, up to the first that is refused. -/
def addAll (p : Plan) (owner : String) (files : GeneratedFiles) : Plan × Except Fault Unit :=
  p.addEntries owner files.entries

/-- The artifacts in the order of their paths. -/
def toList (p : Plan) : List Artifact := p.byPath.values

def size (p : Plan) : Nat := p.byPath.size

end Plan

end ArchSpec
