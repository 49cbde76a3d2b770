import ArchSpec.SortedMap

/-!
# Artifacts

A generator makes files; an artifact is such a file together with the generator that planned it and
its path relative to the output directory.
-/

namespace ArchSpec

/-- Whether a file may be written again. -/
inductive WriteStrategy where
  /-- Whenever its component has changed. -/
  | overwrite
  /-- Never: once there, it belongs to the user. -/
  | writeOnce
  deriving DecidableEq, Repr, Inhabited

/-- A file that a generator makes. -/
structure GeneratedFile where
  content : String
  strategy : WriteStrategy
  /-- The component that it belongs to; a file of the whole specification has none. -/
  component : Option String
  deriving DecidableEq, Repr, Inhabited

/-- The files that a generator makes, by their paths. -/
abbrev GeneratedFiles := SortedMap GeneratedFile

/-- A file that is to be written. -/
structure Artifact where
  /-- The generator that planned it. -/
  owner : String
  path : String
  file : GeneratedFile
  deriving DecidableEq, Repr, Inhabited

end ArchSpec
