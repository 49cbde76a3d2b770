import ArchSpec.Cache.Fingerprint
import ArchSpec.Limits

/-!
# Caches

A cache remembers of the last run what the model and its components were, by their fingerprints,
and which files belong to which component. A component whose fingerprint and whose model's are
still the same does not have to be generated again.

* `Cache.update` — the cache of a model; components that have not changed keep their files.
* `Cache.staleComponents` — the components that have changed.
-/

namespace ArchSpec

/-- What is remembered of a component. -/
structure CacheEntry where
  hash : String
  /-- The paths of its files. -/
  artifacts : List String
  deriving DecidableEq, Repr, Inhabited

/-- What is remembered of a run. -/
structure Cache where
  /-- The version of the layout of its file. -/
  version : String
  specHash : String
  components : SortedMap CacheEntry
  deriving Inhabited

namespace Cache

/-- The cache of this version that remembers nothing. -/
def empty : Cache := ⟨cacheVersion, "", .empty⟩

/-- The fingerprint of a component that is remembered. -/
def hash? (c : Cache) (id : String) : Option String := (c.components.get? id).map (·.hash)

def contains (c : Cache) (id : String) : Bool := c.components.contains id

/-- Whether a component with its fingerprint, in a model with its own, is another than the one that
is remembered. -/
def isStale (c : Cache) (specHash id hash : String) : Bool :=
  c.specHash ≠ specHash || c.hash? id ≠ some hash

/-- The components of a model that are not as they are remembered, in order of IDs. -/
def staleComponents (c : Cache) (m : Model) : List String :=
  let specHash := m.fingerprint
  (m.components.entries.filter fun e => c.isStale specHash e.1 e.2.fingerprint).map (·.1)

/-- What is to be remembered of a component, which keeps its files if it is still the same. -/
def refresh (c : Cache) (id : String) (component : Component) : CacheEntry :=
  let hash := component.fingerprint
  match c.components.get? id with
  | none => ⟨hash, []⟩
  | some entry => if entry.hash = hash then ⟨hash, entry.artifacts⟩ else ⟨hash, []⟩

/-- Remember a model, and nothing of components that it does not have. -/
def update (c : Cache) (m : Model) : Cache :=
  { c with specHash := m.fingerprint, components := m.components.mapValues c.refresh }

/-- Remember which files belong to a component; of an unknown one nothing is remembered. -/
def setArtifacts (c : Cache) (id : String) (paths : List String) : Cache :=
  { c with components := c.components.modify id fun entry => { entry with artifacts := paths } }

end Cache

end ArchSpec
