import Mathlib.Data.List.Basic
import ArchSpec.Cache.Fingerprint
import ArchSpec.Proofs.Json.Compact

/-!
# What a fingerprint tells

Where the digest does not collide, equal fingerprints mean that what counts is the same: the
rendering that is digested determines its value.

* `Model.identity` — the data of a model, and the IDs and kinds of its components.
* `Value.Collide` — two renderings with one digest.
* `Model.identity_eq_of_fingerprint`, `Component.essence_eq_of_fingerprint` — models and components
  with one fingerprint are the same in what counts.
-/

namespace ArchSpec

open Json (Exact)

/-- What a specification is apart from what its components say: its data, and the ID and the kind
of every component. -/
def Model.identity (m : Model) : Metadata × List (String × Kind) :=
  (m.metadata, m.components.values.map fun c => (c.id, c.kind))

/-- Two values that are rendered differently have one digest. -/
def Value.Collide (v w : Value) : Prop :=
  v.fingerprint = w.fingerprint ∧ Json.compact v ≠ Json.compact w

/-! ## What is digested -/

theorem exact_ofFields {fields : List (String × Value)} (h : ∀ f ∈ fields, Exact f.2) :
    Exact (.ofFields fields) :=
  .object fun f hf => h f ((mem_foldl_insertEntry hf).resolve_right List.not_mem_nil)

theorem exact_unordered (xs : Option (List String)) : Exact (unordered xs) := by
  cases xs with
  | none => exact .null
  | some xs =>
    refine .list fun v hv => ?_
    obtain ⟨s, _, rfl⟩ := List.mem_map.1 hv
    exact .text s

theorem Body.exact_essence (b : Body) : Exact b.essence := by
  cases b
  all_goals
    refine exact_ofFields fun f hf => ?_
    simp only [List.mem_cons, List.not_mem_nil, or_false] at hf
    rcases hf with rfl | rfl | rfl | rfl | rfl | rfl | rfl
  all_goals first
    | exact .text _
    | exact .int _
    | exact exact_unordered _

theorem Component.exact_essence (c : Component) : Exact c.essence := by
  refine exact_ofFields fun f hf => ?_
  simp only [List.mem_cons, List.not_mem_nil, or_false] at hf
  rcases hf with rfl | rfl | rfl
  · exact .text _
  · exact .text _
  · exact c.body.exact_essence

/-- The ID and the kind of a component, as they are digested. -/
def identityValue (e : String × Kind) : Value :=
  .ofFields [("id", .text e.1), ("kind", .text e.2.text)]

theorem exact_identityValue (e : String × Kind) : Exact (identityValue e) := by
  refine exact_ofFields fun f hf => ?_
  simp only [List.mem_cons, List.not_mem_nil, or_false] at hf
  rcases hf with rfl | rfl <;> exact .text _

theorem identityValue_inj {e e' : String × Kind} (h : identityValue e = identityValue e') :
    e = e' := by
  have hid := congrArg (Value.field? "id") h
  have hkind := congrArg (Value.field? "kind") h
  simp [identityValue, Value.field?_ofFields, findEntry] at hid hkind
  have hkind := congrArg Kind.ofText? hkind
  rw [Kind.ofText?_text, Kind.ofText?_text, Option.some.injEq] at hkind
  exact Prod.ext hid hkind

theorem Model.essence_eq (m : Model) : m.essence =
    .ofFields [("version", .text m.metadata.version), ("name", .text m.metadata.name),
      ("description", .text m.metadata.description),
      ("components", .list (m.identity.2.map identityValue))] := by
  rw [Model.essence, Model.identity, List.map_map]
  rfl

theorem Model.exact_essence (m : Model) : Exact m.essence := by
  rw [m.essence_eq]
  refine exact_ofFields fun f hf => ?_
  simp only [List.mem_cons, List.not_mem_nil, or_false] at hf
  rcases hf with rfl | rfl | rfl | rfl
  · exact .text _
  · exact .text _
  · exact .text _
  · refine .list fun v hv => ?_
    obtain ⟨e, _, rfl⟩ := List.mem_map.1 hv
    exact exact_identityValue e

theorem Model.identity_eq_of_essence {m n : Model} (h : m.essence = n.essence) :
    m.identity = n.identity := by
  rw [m.essence_eq, n.essence_eq] at h
  have hversion := congrArg (Value.field? "version") h
  have hname := congrArg (Value.field? "name") h
  have hdescription := congrArg (Value.field? "description") h
  have hcomponents := congrArg (Value.field? "components") h
  simp [Value.field?_ofFields, findEntry] at hversion hname hdescription hcomponents
  have hmetadata : m.metadata = n.metadata := by
    cases hm : m.metadata
    cases hn : n.metadata
    simp_all
  have hlist : m.identity.2 = n.identity.2 :=
    List.map_injective_iff.2 (fun _ _ => identityValue_inj) hcomponents
  exact Prod.ext hmetadata hlist

/-! ## Fingerprints -/

theorem Value.eq_of_fingerprint {v w : Value} (hv : Exact v) (hw : Exact w)
    (hclear : ¬v.Collide w) (h : v.fingerprint = w.fingerprint) : v = w := by
  by_contra hne
  exact hclear ⟨h, fun hcompact => hne (Json.compact_inj hv hw hcompact)⟩

/-- **Models with one fingerprint have one identity**, unless the digest collides. -/
theorem Model.identity_eq_of_fingerprint {m n : Model} (hclear : ¬m.essence.Collide n.essence)
    (h : m.fingerprint = n.fingerprint) : m.identity = n.identity :=
  identity_eq_of_essence (Value.eq_of_fingerprint m.exact_essence n.exact_essence hclear h)

/-- **Components with one fingerprint say the same**, unless the digest collides. -/
theorem Component.essence_eq_of_fingerprint {c d : Component}
    (hclear : ¬c.essence.Collide d.essence) (h : c.fingerprint = d.fingerprint) :
    c.essence = d.essence :=
  Value.eq_of_fingerprint c.exact_essence d.exact_essence hclear h

end ArchSpec
