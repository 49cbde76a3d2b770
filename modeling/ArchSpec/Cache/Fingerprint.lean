import ArchSpec.Digest.Sha256
import ArchSpec.Json.Writer
import ArchSpec.Model.Basic

/-!
# Fingerprints

Whether anything has changed since an earlier run is told by digests of what counts. For a model
these are its data and the IDs and kinds of its components; for a component its ID, its kind and
the fields that it was given, with the order of lists left out. Places, contracts and bindings do
not count.

* `Model.fingerprint`, `Component.fingerprint` — the digests.
-/

namespace ArchSpec

/-- A list that may be absent, without its order. -/
def unordered (xs : Option (List String)) : Value :=
  optionalTexts (xs.map fun xs => xs.mergeSort (fun a b => decide (a ≤ b)))

/-- What counts of a body. -/
def Body.essence : Body → Value
  | server s => .ofFields [("framework", .text s.framework), ("port", .int s.port),
      ("openapi", .text s.openapi), ("middleware", unordered s.middleware),
      ("depends_on", unordered s.dependsOn)]
  | middleware m => .ofFields [("provider", .text m.provider), ("config", .text m.config),
      ("model", .text m.model), ("policy", .text m.policy), ("depends_on", unordered m.dependsOn)]
  | database d => .ofFields [("provider", .text d.provider), ("schema", .text d.schema)]
  | usecase u => .ofFields [("binds_to", .text u.bindsTo), ("goal", .text u.goal),
      ("actor", .text u.actor), ("middleware", unordered u.middleware),
      ("preconditions", unordered u.preconditions),
      ("acceptance_criteria", unordered u.acceptanceCriteria),
      ("postconditions", unordered u.postconditions)]

/-- What counts of a component. -/
def Component.essence (c : Component) : Value :=
  .ofFields [("id", .text c.id), ("kind", .text c.kind.text), ("spec", c.body.essence)]

/-- What counts of a model as a whole. -/
def Model.essence (m : Model) : Value :=
  .ofFields [("version", .text m.metadata.version), ("name", .text m.metadata.name),
    ("description", .text m.metadata.description),
    ("components", .list (m.components.values.map fun c =>
      .ofFields [("id", .text c.id), ("kind", .text c.kind.text)]))]

/-- The digest of a document value. -/
def Value.fingerprint (v : Value) : String := Sha256.ofText (Json.compact v)

def Component.fingerprint (c : Component) : String := c.essence.fingerprint

/-- The digest of a model as a whole. -/
def Model.fingerprint (m : Model) : String := m.essence.fingerprint

end ArchSpec
