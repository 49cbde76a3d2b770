import Mathlib.Data.List.Sort
import ArchSpec.Proofs.Cache.Fingerprint
import ArchSpec.Proofs.Generator.Snapshot
import ArchSpec.Proofs.Text

/-!
# What counts

The bytes of which a fingerprint is the digest are the same for two components exactly if these have
one ID and say the same, where the order of a list does not count, but its absence does. For two
models that are built they are the same exactly if the models have the same data and the same IDs
with the same kinds.

* `Value.rendering` — the bytes that are digested; they tell the value.
* `Body.SameContent`, `Component.SameContent` — components that say the same.
* `Body.bare` — what counts of a body, in one order; `Body.bare_eq_iff` — bodies that say the same.
* `Model.WellFormed.identity_eq_iff` — models with the same data and the same IDs and kinds.
* `rendering_spec` — what renderings tell.
-/

namespace ArchSpec

open Json (Exact)

/-! ## The bytes that are digested -/

/-- The digest of bytes, in 64 digits. -/
def Sha256.ofBytes (bytes : ByteArray) : String :=
  String.ofList ((digest bytes.toList).flatMap fun w => hexDigits w.toNat 8)

/-- The bytes of which the fingerprint of a value is the digest. -/
def Value.rendering (v : Value) : ByteArray := (Json.compact v).toUTF8

theorem Value.fingerprint_eq (v : Value) : v.fingerprint = Sha256.ofBytes v.rendering := rfl

/-- The bytes tell the value. -/
theorem Value.rendering_inj {v w : Value} (hv : Exact v) (hw : Exact w) :
    v.rendering = w.rendering ↔ v = w := by
  constructor
  · intro h
    exact Json.compact_inj hv hw (String.toByteArray_inj.1 h)
  · intro h
    rw [h]

/-! ## Lists without their order -/

/-- Lists are the same in order exactly if they have the same entries, each as often. -/
theorem sortedTexts_eq_iff {xs ys : List String} :
    sortedTexts xs = sortedTexts ys ↔ xs.Perm ys := by
  constructor
  · intro h
    exact (sortedTexts_perm xs).symm.trans (h ▸ sortedTexts_perm ys)
  · intro h
    have hperm : (sortedTexts xs).Perm (sortedTexts ys) :=
      (sortedTexts_perm xs).trans (h.trans (sortedTexts_perm ys).symm)
    apply hperm.eq_of_pairwise _ (pairwise_sortedTexts xs) (pairwise_sortedTexts ys)
    intro a b _ _
    exact String.le_antisymm

/-- The same of lists that may be absent; an absent list is no empty one. -/
theorem map_sortedTexts_eq_iff {xs ys : Option (List String)} :
    xs.map sortedTexts = ys.map sortedTexts ↔ Option.Rel List.Perm xs ys := by
  cases xs with
  | none =>
    cases ys with
    | none => exact ⟨fun _ => .none, fun _ => rfl⟩
    | some ys => exact ⟨nofun, nofun⟩
  | some xs =>
    cases ys with
    | none => exact ⟨nofun, nofun⟩
    | some ys =>
      rw [Option.map_some, Option.map_some, Option.some.injEq, sortedTexts_eq_iff]
      constructor
      · intro h
        exact .some h
      · rintro ⟨h⟩
        exact h

/-! ## Components -/

/-- Two bodies of one kind with the same texts and numbers and, but for the order of their entries,
the same lists. Contracts and bindings do not count. -/
inductive Body.SameContent : Body → Body → Prop
  | server {s s' : Server} (framework : s.framework = s'.framework) (port : s.port = s'.port)
    (openapi : s.openapi = s'.openapi)
    (middleware : Option.Rel List.Perm s.middleware s'.middleware)
    (dependsOn : Option.Rel List.Perm s.dependsOn s'.dependsOn) :
    SameContent (.server s) (.server s')
  | middleware {m m' : Middleware} (provider : m.provider = m'.provider)
    (config : m.config = m'.config) (model : m.model = m'.model) (policy : m.policy = m'.policy)
    (dependsOn : Option.Rel List.Perm m.dependsOn m'.dependsOn) :
    SameContent (.middleware m) (.middleware m')
  | database {d d' : Database} (provider : d.provider = d'.provider)
    (schema : d.schema = d'.schema) :
    SameContent (.database d) (.database d')
  | usecase {u u' : Usecase} (bindsTo : u.bindsTo = u'.bindsTo) (goal : u.goal = u'.goal)
    (actor : u.actor = u'.actor) (middleware : Option.Rel List.Perm u.middleware u'.middleware)
    (preconditions : Option.Rel List.Perm u.preconditions u'.preconditions)
    (acceptanceCriteria : Option.Rel List.Perm u.acceptanceCriteria u'.acceptanceCriteria)
    (postconditions : Option.Rel List.Perm u.postconditions u'.postconditions) :
    SameContent (.usecase u) (.usecase u')

/-- Two components with one ID that say the same. Where they are declared, what they are connected
to and what has been attached to them does not count. -/
structure Component.SameContent (c d : Component) : Prop where
  id : c.id = d.id
  body : c.body.SameContent d.body

namespace Body

/-- What counts of a body, with the entries of its lists in order. -/
def bare : Body → Body
  | server s => .server { s with
      middleware := s.middleware.map sortedTexts
      dependsOn := s.dependsOn.map sortedTexts
      contract := none }
  | middleware m => .middleware { m with dependsOn := m.dependsOn.map sortedTexts }
  | database d => .database d
  | usecase u => .usecase { u with
      middleware := u.middleware.map sortedTexts
      preconditions := u.preconditions.map sortedTexts
      acceptanceCriteria := u.acceptanceCriteria.map sortedTexts
      postconditions := u.postconditions.map sortedTexts
      binding := none }

theorem kind_bare (b : Body) : b.bare.kind = b.kind := by
  cases b <;> rfl

theorem essence_eq (b : Body) : b.essence = b.bare.toValue := by
  cases b <;> rfl

theorem SameContent.kind {b b' : Body} (h : b.SameContent b') : b.kind = b'.kind := by
  cases h <;> rfl

/-- **Bodies say the same** exactly if what counts of them is the same. -/
theorem bare_eq_iff {b b' : Body} : b.bare = b'.bare ↔ b.SameContent b' := by
  constructor
  · intro h
    have hkind : b.kind = b'.kind := by rw [← kind_bare b, h, kind_bare]
    cases b with
    | server s =>
      cases b' with
      | server s' =>
        simp only [bare, server.injEq, Server.mk.injEq, map_sortedTexts_eq_iff] at h
        exact .server h.1 h.2.1 h.2.2.1 h.2.2.2.1 h.2.2.2.2.1
      | _ => cases hkind
    | middleware m =>
      cases b' with
      | middleware m' =>
        simp only [bare, middleware.injEq, Middleware.mk.injEq, map_sortedTexts_eq_iff] at h
        exact .middleware h.1 h.2.1 h.2.2.1 h.2.2.2.1 h.2.2.2.2
      | _ => cases hkind
    | database d =>
      cases b' with
      | database d' =>
        simp only [bare, database.injEq] at h
        exact .database (congrArg Database.provider h) (congrArg Database.schema h)
      | _ => cases hkind
    | usecase u =>
      cases b' with
      | usecase u' =>
        simp only [bare, usecase.injEq, Usecase.mk.injEq, map_sortedTexts_eq_iff] at h
        exact .usecase h.1 h.2.1 h.2.2.1 h.2.2.2.1 h.2.2.2.2.1 h.2.2.2.2.2.1 h.2.2.2.2.2.2.1
      | _ => cases hkind
  · intro h
    cases h with
    | server framework port openapi middleware dependsOn =>
      simp only [bare, framework, port, openapi, map_sortedTexts_eq_iff.2 middleware,
        map_sortedTexts_eq_iff.2 dependsOn]
    | middleware provider config model policy dependsOn =>
      simp only [bare, provider, config, model, policy, map_sortedTexts_eq_iff.2 dependsOn]
    | @database d d' provider schema =>
      cases d
      cases d'
      cases provider
      cases schema
      rfl
    | usecase bindsTo goal actor middleware preconditions acceptanceCriteria postconditions =>
      simp only [bare, bindsTo, goal, actor, map_sortedTexts_eq_iff.2 middleware,
        map_sortedTexts_eq_iff.2 preconditions, map_sortedTexts_eq_iff.2 acceptanceCriteria,
        map_sortedTexts_eq_iff.2 postconditions]

end Body

namespace Component

theorem essence_eq (c : Component) : c.essence = Value.ofRecord [("id", some (.text c.id)),
    ("kind", some (.text c.kind.text)), ("spec", some c.body.essence)] :=
  rfl

/-- **Components say the same** exactly if what is digested of them is the same. -/
theorem essence_eq_iff {c d : Component} : c.essence = d.essence ↔ c.SameContent d := by
  constructor
  · intro h
    rw [c.essence_eq, d.essence_eq] at h
    have hrecord := Value.ofRecord_inj h rfl (by simp)
    simp only [List.cons.injEq, Prod.mk.injEq, true_and, and_true, Option.some.injEq,
      Value.text.injEq] at hrecord
    obtain ⟨hid, hkind, hbody⟩ := hrecord
    have hkind := congrArg Kind.ofText? hkind
    rw [Kind.ofText?_text, Kind.ofText?_text, Option.some.injEq] at hkind
    rw [Body.essence_eq, Body.essence_eq] at hbody
    have hbare : c.body.bare.kind = d.body.bare.kind := by
      rw [Body.kind_bare, Body.kind_bare]
      exact hkind
    exact ⟨hid, Body.bare_eq_iff.1 (Body.toValue_inj hbare hbody)⟩
  · intro h
    have hkind : c.kind = d.kind := h.body.kind
    have hbody : c.body.essence = d.body.essence := by
      rw [Body.essence_eq, Body.essence_eq, Body.bare_eq_iff.2 h.body]
    rw [c.essence_eq, d.essence_eq, h.id, hkind, hbody]

end Component

/-! ## Models -/

namespace Model

/-- Models have the same identity exactly if what is digested of them as a whole is the same. -/
theorem essence_eq_iff {m n : Model} : m.essence = n.essence ↔ m.identity = n.identity := by
  constructor
  · exact identity_eq_of_essence
  · intro h
    have hmetadata : m.metadata = n.metadata := congrArg Prod.fst h
    rw [m.essence_eq, n.essence_eq, hmetadata, h]

/-- The IDs of a model come in order, each once. -/
theorem WellFormed.pairwise_identity {m : Model} (hm : m.WellFormed) :
    m.identity.2.Pairwise fun e f => e.1 < f.1 := by
  have hids : m.identity.2.map (·.1) = m.ids := by
    rw [identity, List.map_map]
    exact hm.map_id_values
  have h : m.ids.Pairwise (· < ·) := List.pairwise_map.2 m.components.increasing
  rw [← hids] at h
  exact List.pairwise_map.1 h

/-- **Well-formed models have the same identity** exactly if they have the same data and the same
IDs with the same kinds, whatever their order. -/
theorem WellFormed.identity_eq_iff {m n : Model} (hm : m.WellFormed) (hn : n.WellFormed) :
    m.identity = n.identity ↔ (m.metadata.version = n.metadata.version ∧
      m.metadata.name = n.metadata.name ∧ m.metadata.description = n.metadata.description) ∧
      ∀ e, e ∈ m.identity.2 ↔ e ∈ n.identity.2 := by
  constructor
  · intro h
    have hmetadata : m.metadata = n.metadata := congrArg Prod.fst h
    rw [hmetadata, h]
    exact ⟨⟨rfl, rfl, rfl⟩, fun _ => Iff.rfl⟩
  · rintro ⟨⟨hversion, hname, hdescription⟩, hmem⟩
    have hfields : ∀ a b : Metadata, a.version = b.version → a.name = b.name →
        a.description = b.description → a = b := by
      rintro ⟨⟩ ⟨⟩ rfl rfl rfl
      rfl
    have hmetadata := hfields m.metadata n.metadata hversion hname hdescription
    have : Std.Antisymm fun e f : String × Kind => e.1 < f.1 :=
      ⟨fun e f hef hfe => absurd (String.lt_trans hef hfe) (String.lt_irrefl _)⟩
    have : Std.Irrefl fun e f : String × Kind => e.1 < f.1 := ⟨fun e => String.lt_irrefl _⟩
    have hlist := hm.pairwise_identity.eq_of_mem_iff hn.pairwise_identity hmem
    exact Prod.ext hmetadata hlist

end Model

/-! ## Renderings -/

/-- **What renderings tell**, of which the fingerprints are the digests: two components have one
rendering exactly if they have one ID and say the same, and two models that are built have one
exactly if they have the same data and the same IDs with the same kinds. -/
theorem rendering_spec :
    (∀ c : Component, c.fingerprint = Sha256.ofBytes c.essence.rendering) ∧
    (∀ m : Model, m.fingerprint = Sha256.ofBytes m.essence.rendering) ∧
    (∀ c d : Component, c.essence.rendering = d.essence.rendering ↔ c.SameContent d) ∧
    ∀ (s s' : Specification) (base base' : Path) (read read' : Path → Except Failure Contract),
      (Model.build s base read).1.essence.rendering =
          (Model.build s' base' read').1.essence.rendering ↔
        ((Model.build s base read).1.metadata.version =
            (Model.build s' base' read').1.metadata.version ∧
          (Model.build s base read).1.metadata.name =
            (Model.build s' base' read').1.metadata.name ∧
          (Model.build s base read).1.metadata.description =
            (Model.build s' base' read').1.metadata.description) ∧
        ∀ e, e ∈ (Model.build s base read).1.identity.2 ↔
          e ∈ (Model.build s' base' read').1.identity.2 := by
  refine ⟨fun c => c.essence.fingerprint_eq, fun m => m.essence.fingerprint_eq, fun c d => ?_,
    fun s s' base base' read read' => ?_⟩
  · rw [Value.rendering_inj c.exact_essence d.exact_essence, Component.essence_eq_iff]
  · have hm := Model.WellFormed.build s base read
    have hn := Model.WellFormed.build s' base' read'
    rw [Value.rendering_inj (Model.exact_essence _) (Model.exact_essence _), Model.essence_eq_iff,
      hm.identity_eq_iff hn]

end ArchSpec
