import ArchSpec.Cache.Basic
import ArchSpec.FileStore.Replace
import ArchSpec.Json.Reader

/-!
# Cache files

A cache is saved as JSON. A file of another version, or of none, counts as no cache at all; what
is no JSON, or of this version and malformed, is refused.

* `Cache.text`, `Cache.ofText` — the text of a cache, and back.
* `Cache.save`, `Cache.load` — the file of a cache.
-/

namespace ArchSpec

/-- Why a text is no cache. -/
inductive CacheFault where
  | json (f : Json.Fault)
  | malformed
  deriving DecidableEq, Repr

namespace CacheFault

def message : CacheFault → String
  | json f => f.message
  | malformed => "the JSON text does not describe a cache"

def all : List CacheFault := Json.Fault.all.map json ++ [malformed]

end CacheFault

/-! ## As text -/

def CacheEntry.toValue (e : CacheEntry) : Value :=
  .object [("hash", .text e.hash), ("artifacts", .texts e.artifacts)]

namespace Cache

def toValue (c : Cache) : Value :=
  .object [("cache_version", .text c.version), ("specHash", .text c.specHash),
    ("components", c.components.toValue CacheEntry.toValue)]

def text (c : Cache) : String := Json.pretty c.toValue

/-- A list of texts and nothing else. -/
def textsOf? : List Value → Option (List String)
  | [] => some []
  | .text s :: rest => (textsOf? rest).map (s :: ·)
  | _ :: _ => none

/-- A field that has to be a text if it is there, and counts as empty otherwise. -/
def optionalText? : Option Value → Option String
  | none => some ""
  | some v => v.text?

/-- A field that has to be a list of texts if it is there, and counts as empty otherwise. -/
def optionalTexts? : Option Value → Option (List String)
  | none => some []
  | some v => v.list?.bind textsOf?

/-- The entry that a value describes: by its fields, or as a list of their values in order. -/
def entryOf? : Value → Option CacheEntry
  | .object fields => do
    let hash ← (findEntry "hash" fields).bind Value.text?
    let artifacts ← optionalTexts? (findEntry "artifacts" fields)
    return ⟨hash, artifacts⟩
  | .list [.text hash] => some ⟨hash, []⟩
  | .list [.text hash, artifacts] => (optionalTexts? (some artifacts)).map (⟨hash, ·⟩)
  | _ => none

def entriesOf? : List (String × Value) → Option (List (String × CacheEntry))
  | [] => some []
  | (id, v) :: rest => do
    let e ← entryOf? v
    return (id, e) :: (← entriesOf? rest)

def componentsOf? : Option Value → Option (SortedMap CacheEntry)
  | none => some .empty
  | some v => (v.fields?.bind entriesOf?).map .ofList

/-- The cache that a value describes. -/
def ofValue? (v : Value) : Option Cache := do
  let version ← optionalText? (v.field? "cache_version")
  let specHash ← optionalText? (v.field? "specHash")
  let components ← componentsOf? (v.field? "components")
  return ⟨version, specHash, components⟩

/-- The cache of the text of a file. -/
def ofText (text : String) : Except CacheFault Cache :=
  match Json.read text with
  | .error f => .error (.json f)
  | .ok v =>
    if (v.field? "cache_version").bind Value.text? = some cacheVersion then
      match ofValue? v with
      | none => .error .malformed
      | some c => .ok c
    else .ok empty

/-! ## As a file -/

variable {m : Type → Type} [Monad m] [FileStore m]

/-- The cache at a path; if there is no file, one that remembers nothing. -/
def load (path : Path) : Action m Cache := do
  if !(← FileStore.existsAt (m := m) path) then return empty
  let text ← Action.ofStore ("Failed to read cache: " ++ path) (FileStore.readText path)
  match ofText text with
  | .error f => Action.fail (.cache ("failed to parse cache " ++ path ++ ": " ++ f.message))
  | .ok c => return c

def save (c : Cache) (path : Path) : Action m Unit :=
  Action.within ("Failed to write cache: " ++ path) (FileStore.replaceText path c.text)

end Cache

end ArchSpec
