import ArchSpec.Specification.Basic

/-!
# Checks of a specification as a whole

IDs are unique, and version and name are there.

* `Specification.checkSemantics` — the problems, in the order in which they are shown.
-/

namespace ArchSpec.Specification

/-- One problem for each declaration whose ID was declared before; `seen` holds the declared IDs
with the kinds of their first declarations. -/
def duplicates (seen : List (String × String)) : List Declaration → List Diagnostic
  | [] => []
  | d :: rest =>
    match seen.lookup d.id with
    | some kind => .duplicateSymbol d.id kind d.position :: duplicates seen rest
    | none => duplicates ((d.id, d.kind) :: seen) rest

/-- One problem for a field of the document that is empty. -/
def missingMetadata (field value : String) : List Diagnostic :=
  if value.isEmpty then [.missingMetadata field] else []

/-- The problems of a specification as a whole. -/
def checkSemantics (s : Specification) : List Diagnostic :=
  Diagnostic.sort (duplicates [] s.declarations ++ missingMetadata "version" s.version ++
    missingMetadata "name" s.name)

end ArchSpec.Specification
