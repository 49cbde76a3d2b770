import ArchSpec.Proofs.Cache.Stored

/-!
# What a cache file may say

The version of a file is looked at before anything else. A file of another version, or of none, or
that is no object at all, counts as no cache, whatever else it says; a file of this version has to
fit the layout, and then means one cache. A field of the layout may be left out and then counts as
empty, except for the fingerprint of a component.

* `FieldMeans` — what a field means that may be left out.
* `EntryLayout`, `ComponentsLayout`, `Layout` — values that fit the layout, with what they mean.
* `Cache.ofValue?_eq_some_iff` — the cache that a value describes is what the layout says.
* `Cache.load_spec` — what becomes of every cache that is saved and of every text that is loaded.
-/

namespace ArchSpec.Cache

/-! ## The layout -/

/-- A field that may be left out: it means what its value means, or else the default. -/
inductive FieldMeans {α : Type} (means : Value → α → Prop) (default : α) : Option Value → α → Prop
  | given {v : Value} {a : α} (given : means v a) : FieldMeans means default (some v) a
  | absent : FieldMeans means default none default

/-- A value that is a text. -/
def IsText (v : Value) (s : String) : Prop := v = .text s

/-- A value that is a list of texts. -/
def AreTexts (v : Value) (xs : List String) : Prop := v = .texts xs

/-- How an entry is written: as an object with its fields, or as the list of their values. -/
inductive EntryLayout : Value → CacheEntry → Prop
  | object {fields : List (String × Value)} {e : CacheEntry}
    (hash : findEntry "hash" fields = some (.text e.hash))
    (artifacts : FieldMeans AreTexts [] (findEntry "artifacts" fields) e.artifacts) :
    EntryLayout (.object fields) e
  | hashAlone (hash : String) : EntryLayout (.list [.text hash]) ⟨hash, []⟩
  | hashFirst (hash : String) (artifacts : List String) :
    EntryLayout (.list [.text hash, .texts artifacts]) ⟨hash, artifacts⟩

/-- How the entries of components are written: as an object with an entry under each ID. -/
inductive ComponentsLayout : Value → SortedMap CacheEntry → Prop
  | object {fields : List (String × Value)} {es : List (String × CacheEntry)}
    (each : List.Forall₂ (fun f e => f.1 = e.1 ∧ EntryLayout f.2 e.2) fields es) :
    ComponentsLayout (.object fields) (.ofList es)

/-- How a cache is written: as an object with its fields, among any others. -/
structure Layout (v : Value) (c : Cache) : Prop where
  version : FieldMeans IsText "" (v.field? "cache_version") c.version
  specHash : FieldMeans IsText "" (v.field? "specHash") c.specHash
  components : FieldMeans ComponentsLayout .empty (v.field? "components") c.components

/-! ## What is read is what the layout says -/

/-- A field that may be left out is read as its value is, if that is read as it should be. -/
theorem elim_eq_some_iff {α : Type} {read : Value → Option α} {means : Value → α → Prop}
    {default : α} (h : ∀ v a, read v = some a ↔ means v a) {field : Option Value} {a : α} :
    field.elim (some default) read = some a ↔ FieldMeans means default field a := by
  cases field with
  | none =>
    constructor
    · intro hdefault
      cases hdefault
      exact .absent
    · intro hmeans
      cases hmeans
      rfl
  | some v =>
    constructor
    · intro hread
      exact .given ((h v a).1 hread)
    · intro hmeans
      cases hmeans with
      | given hgiven => exact (h v a).2 hgiven

theorem text?_eq_some_iff (v : Value) (s : String) : v.text? = some s ↔ IsText v s := by
  constructor
  · intro h
    cases v <;> cases h
    rfl
  · intro h
    cases h
    rfl

theorem textsOf?_eq_some_iff {items : List Value} {xs : List String} :
    textsOf? items = some xs ↔ items = xs.map .text := by
  constructor
  · intro h
    induction items generalizing xs with
    | nil =>
      cases h
      rfl
    | cons v rest ih =>
      cases v with
      | text s =>
        obtain ⟨ys, hrest, rfl⟩ := Option.map_eq_some_iff.1 h
        rw [ih hrest, List.map_cons]
      | _ => cases h
  · intro h
    rw [h]
    exact textsOf?_texts xs

theorem texts?_eq_some_iff (v : Value) (xs : List String) :
    v.list?.bind textsOf? = some xs ↔ AreTexts v xs := by
  constructor
  · intro h
    obtain ⟨items, hitems, htexts⟩ := Option.bind_eq_some_iff.1 h
    cases v <;> cases hitems
    exact congrArg Value.list (textsOf?_eq_some_iff.1 htexts)
  · intro h
    cases h
    exact textsOf?_texts xs

theorem optionalText?_eq_some_iff {field : Option Value} {s : String} :
    optionalText? field = some s ↔ FieldMeans IsText "" field s := by
  have helim : optionalText? field = field.elim (some "") Value.text? := by
    cases field <;> rfl
  rw [helim]
  exact elim_eq_some_iff text?_eq_some_iff

theorem optionalTexts?_eq_some_iff {field : Option Value} {xs : List String} :
    optionalTexts? field = some xs ↔ FieldMeans AreTexts [] field xs := by
  have helim : optionalTexts? field = field.elim (some []) (fun v => v.list?.bind textsOf?) := by
    cases field <;> rfl
  rw [helim]
  exact elim_eq_some_iff texts?_eq_some_iff

theorem entryOf?_eq_some_iff {v : Value} {e : CacheEntry} :
    entryOf? v = some e ↔ EntryLayout v e := by
  constructor
  · intro h
    unfold entryOf? at h
    split at h
    · rename_i fields
      obtain ⟨hash, hhash, h⟩ := Option.bind_eq_some_iff.1 h
      obtain ⟨artifacts, hartifacts, h⟩ := Option.bind_eq_some_iff.1 h
      cases h
      obtain ⟨w, hfield, htext⟩ := Option.bind_eq_some_iff.1 hhash
      have hw : w = .text hash := (text?_eq_some_iff w hash).1 htext
      rw [hw] at hfield
      exact .object hfield (optionalTexts?_eq_some_iff.1 hartifacts)
    · cases h
      exact .hashAlone _
    · rename_i hash w
      obtain ⟨artifacts, hartifacts, rfl⟩ := Option.map_eq_some_iff.1 h
      have hw : w = .texts artifacts := (texts?_eq_some_iff w artifacts).1 hartifacts
      rw [hw]
      exact .hashFirst hash artifacts
    · cases h
  · intro h
    cases h with
    | object hash artifacts =>
      rw [entryOf?, hash, optionalTexts?_eq_some_iff.2 artifacts]
      rfl
    | hashAlone hash => rfl
    | hashFirst hash artifacts =>
      have htexts : optionalTexts? (some (.texts artifacts)) = some artifacts :=
        textsOf?_texts artifacts
      rw [entryOf?, htexts]
      rfl

theorem entriesOf?_eq_some_iff {fields : List (String × Value)} {es : List (String × CacheEntry)} :
    entriesOf? fields = some es ↔
      List.Forall₂ (fun f e => f.1 = e.1 ∧ EntryLayout f.2 e.2) fields es := by
  constructor
  · intro h
    induction fields generalizing es with
    | nil =>
      cases h
      exact .nil
    | cons f rest ih =>
      obtain ⟨e, hentry, h⟩ := Option.bind_eq_some_iff.1 h
      obtain ⟨es, hrest, h⟩ := Option.bind_eq_some_iff.1 h
      cases h
      exact .cons ⟨rfl, entryOf?_eq_some_iff.1 hentry⟩ (ih hrest)
  · intro h
    induction h with
    | nil => rfl
    | cons hfirst _ ih =>
      obtain ⟨hid, hentry⟩ := hfirst
      rw [entriesOf?, entryOf?_eq_some_iff.2 hentry, ih, hid]
      rfl

theorem components?_eq_some_iff (v : Value) (components : SortedMap CacheEntry) :
    (v.fields?.bind entriesOf?).map .ofList = some components ↔ ComponentsLayout v components := by
  constructor
  · intro h
    obtain ⟨es, hentries, rfl⟩ := Option.map_eq_some_iff.1 h
    obtain ⟨fields, hfields, hentries⟩ := Option.bind_eq_some_iff.1 hentries
    cases v <;> cases hfields
    exact .object (entriesOf?_eq_some_iff.1 hentries)
  · intro h
    cases h with
    | object each => exact congrArg (Option.map _) (entriesOf?_eq_some_iff.2 each)

theorem componentsOf?_eq_some_iff {field : Option Value} {components : SortedMap CacheEntry} :
    componentsOf? field = some components ↔
      FieldMeans ComponentsLayout .empty field components := by
  have helim : componentsOf? field = field.elim (some .empty)
      (fun v => (v.fields?.bind entriesOf?).map .ofList) := by
    cases field <;> rfl
  rw [helim]
  exact elim_eq_some_iff components?_eq_some_iff

/-- **The cache that a value describes** is the one that it means by the layout. -/
theorem ofValue?_eq_some_iff {v : Value} {c : Cache} : ofValue? v = some c ↔ Layout v c := by
  constructor
  · intro h
    obtain ⟨version, hversion, h⟩ := Option.bind_eq_some_iff.1 h
    obtain ⟨specHash, hspec, h⟩ := Option.bind_eq_some_iff.1 h
    obtain ⟨components, hcomponents, h⟩ := Option.bind_eq_some_iff.1 h
    cases h
    exact ⟨optionalText?_eq_some_iff.1 hversion, optionalText?_eq_some_iff.1 hspec,
      componentsOf?_eq_some_iff.1 hcomponents⟩
  · intro h
    rw [ofValue?, optionalText?_eq_some_iff.2 h.version, optionalText?_eq_some_iff.2 h.specHash,
      componentsOf?_eq_some_iff.2 h.components]
    rfl

/-! ## Texts -/

section

variable {text : String} {v : Value} {c : Cache}

/-- The version is looked at before the layout. -/
theorem version?_eq_some_iff (v : Value) :
    (v.field? "cache_version").bind Value.text? = some cacheVersion ↔
      v.field? "cache_version" = some (.text cacheVersion) := by
  constructor
  · intro h
    obtain ⟨w, hfield, htext⟩ := Option.bind_eq_some_iff.1 h
    rw [hfield, (text?_eq_some_iff w cacheVersion).1 htext]
  · intro h
    rw [h]
    rfl

/-- A file of another version counts as no cache, whatever else it says. -/
theorem ofText_discarded (hread : Json.read text = .ok v)
    (hversion : v.field? "cache_version" ≠ some (.text cacheVersion)) :
    ofText text = .ok empty := by
  rw [ofText, hread]
  exact if_neg fun h => hversion ((version?_eq_some_iff v).1 h)

theorem ofText_current (hread : Json.read text = .ok v)
    (hversion : v.field? "cache_version" = some (.text cacheVersion)) :
    ofText text = match ofValue? v with
      | none => .error .malformed
      | some c => .ok c := by
  rw [ofText, hread]
  exact if_pos ((version?_eq_some_iff v).2 hversion)

/-- A text is refused that is no JSON, or that is of this version and does not fit the layout. -/
theorem ofText_eq_error_iff : (∃ f, ofText text = .error f) ↔ (∃ f, Json.read text = .error f) ∨
    ∃ v, Json.read text = .ok v ∧ v.field? "cache_version" = some (.text cacheVersion) ∧
      ∀ c, ¬Layout v c := by
  cases hread : Json.read text with
  | error f =>
    have herror : ofText text = .error (.json f) := by
      rw [ofText, hread]
    exact ⟨fun _ => .inl ⟨f, rfl⟩, fun _ => ⟨_, herror⟩⟩
  | ok v =>
    -- the layout counts only if the version is this one
    by_cases hversion : v.field? "cache_version" = some (.text cacheVersion)
    · rw [ofText_current hread hversion]
      constructor
      · intro h
        refine .inr ⟨v, rfl, hversion, fun c hc => ?_⟩
        rw [ofValue?_eq_some_iff.2 hc] at h
        obtain ⟨f, hf⟩ := h
        cases hf
      · rintro (⟨f, hf⟩ | ⟨w, hw, _, hnone⟩)
        · cases hf
        · cases hw
          cases hvalue : ofValue? v with
          | none => exact ⟨_, rfl⟩
          | some c => exact absurd (ofValue?_eq_some_iff.1 hvalue) (hnone c)
    · rw [ofText_discarded hread hversion]
      constructor
      · rintro ⟨f, hf⟩
        cases hf
      · rintro (⟨f, hf⟩ | ⟨w, hw, hcurrent, _⟩)
        · cases hf
        · cases hw
          exact absurd hcurrent hversion

end

/-! ## Files -/

/-- The file at a path is refused, with its path and a reason. -/
def Refused (path : Path) (t : FileTree) : Prop :=
  ∃ reason, (load path : Action (StateM FileTree) Cache).run t = (.error (Failure.ofFault
    (.cache ("failed to parse cache " ++ path ++ ": " ++ reason))), t)

section

variable {path : Path} {t : FileTree} {text : String} {c : Cache}

theorem load_of_text (hread : t.readText path = .ok text) (hc : ofText text = .ok c) :
    (load path : Action (StateM FileTree) Cache).run t = (.ok c, t) := by
  have hthere : t.existsAt path = true := FileTree.existsAt_of_readText hread
  rw [run_load, if_pos hthere, hread]
  simp only [hc]

/-- A file that can be read is refused just when its text is. -/
theorem refused_iff (hread : t.readText path = .ok text) :
    Refused path t ↔ ∃ f, ofText text = .error f := by
  have hthere : t.existsAt path = true := FileTree.existsAt_of_readText hread
  constructor
  · intro h
    obtain ⟨reason, hrun⟩ := h
    cases htext : ofText text with
    | error f => exact ⟨f, rfl⟩
    | ok c =>
      rw [load_of_text hread htext] at hrun
      cases hrun
  · intro h
    obtain ⟨f, hf⟩ := h
    refine ⟨f.message, ?_⟩
    rw [run_load, if_pos hthere, hread]
    simp only [hf]

end

/-- **What becomes of caches that are saved and of texts that are loaded.** A cache is loaded as it
was saved if it is of this version, and else as the empty one. A text is refused just when it is no
JSON, or is an object of this version that does not fit the layout; every other value of another
version, or of none, is loaded as the empty cache, and one of this version as what it means. -/
theorem load_spec :
    (∀ (c : Cache) (path : Path) (t u : FileTree), t.WellFormed →
      (c.save path : Action (StateM FileTree) Unit).run t = (.ok (), u) →
      (load path : Action (StateM FileTree) Cache).run u =
        (.ok (if c.version = cacheVersion then c else empty), u)) ∧
    ∀ (path : Path) (t : FileTree) (text : String), t.readText path = .ok text →
      (Refused path t ↔ (∃ f, Json.read text = .error f) ∨
        ∃ v, Json.read text = .ok v ∧ v.field? "cache_version" = some (.text cacheVersion) ∧
          ∀ c, ¬Layout v c) ∧
      ∀ v, Json.read text = .ok v →
        (v.field? "cache_version" ≠ some (.text cacheVersion) →
          (load path : Action (StateM FileTree) Cache).run t = (.ok empty, t)) ∧
        (v.field? "cache_version" = some (.text cacheVersion) → ∀ c, Layout v c →
          (load path : Action (StateM FileTree) Cache).run t = (.ok c, t)) := by
  refine ⟨fun c path t u ht hsave => ?_, fun path t text hread => ⟨?_, fun v hv => ⟨?_, ?_⟩⟩⟩
  · obtain ⟨_, hsaved⟩ := save_ok ht hsave
    exact load_saved hsaved
  · rw [refused_iff hread, ofText_eq_error_iff]
  · intro hversion
    exact load_of_text hread (ofText_discarded hv hversion)
  · intro hversion c hc
    apply load_of_text hread
    rw [ofText_current hv hversion, ofValue?_eq_some_iff.2 hc]

/-! ## A drawer of cache files -/

/-- A file with a version, and with a list where the components should be. -/
def misfit (version : Value) : Value :=
  .object [("cache_version", version), ("components", .list [])]

theorem read_misfit {version : Value} (h : Json.Readable 1 version) :
    Json.read (Json.pretty (misfit version)) = .ok (Json.inOrder (misfit version)) := by
  refine Json.read_pretty (Json.Readable.mono (show 2 ≤ Json.maxDepth by decide)
    (.object fun f hf => ?_))
  simp only [List.mem_cons, List.not_mem_nil, or_false] at hf
  rcases hf with rfl | rfl
  · exact h
  · exact .list nofun

def cutText : String := "\x7b\"cache_version\":"

/-- Three files: one is cut off, one is of no version, and one is of this version. -/
def drawer : FileTree := ⟨[(["cut"], .file cutText),
  (["foreign"], .file (Json.pretty (misfit .null))),
  (["misfit"], .file (Json.pretty (misfit (.text cacheVersion))))], []⟩

/-- A cache of this version. -/
def drawerCache : Cache := ⟨cacheVersion, "\"", SortedMap.empty.insert "é\n" ⟨"\\", ["\t", ""]⟩⟩

/-- The tree after the cache has been saved. -/
def drawerAfter : FileTree :=
  ((drawerCache.save "new" : Action (StateM FileTree) Unit).run drawer).2

theorem drawer_saved :
    (drawerCache.save "new" : Action (StateM FileTree) Unit).run drawer =
      (.ok (), drawerAfter) := by
  have hok :
      ((drawerCache.save "new" : Action (StateM FileTree) Unit).run drawer).1.isOk = true := by
    decide +kernel
  rw [drawerAfter]
  generalize (drawerCache.save "new" : Action (StateM FileTree) Unit).run drawer = outcome at hok ⊢
  obtain ⟨result, u⟩ := outcome
  cases result with
  | error e => cases hok
  | ok => rfl

theorem read_cutText : ∃ f, Json.read cutText = .error f := by
  have hok : (Json.read cutText).isOk = false := by
    decide +kernel
  cases hread : Json.read cutText with
  | error f => exact ⟨f, rfl⟩
  | ok v =>
    rw [hread] at hok
    cases hok

/-- A cache is loaded as it was saved, a file of no version as the empty cache; what is cut off and
what does not fit the layout is refused. -/
theorem load_spec_drawer :
    (load "new" : Action (StateM FileTree) Cache).run drawerAfter = (.ok drawerCache, drawerAfter) ∧
    (load "foreign" : Action (StateM FileTree) Cache).run drawer = (.ok empty, drawer) ∧
    Refused "cut" drawer ∧ Refused "misfit" drawer := by
  obtain ⟨hsaved, htexts⟩ := load_spec
  refine ⟨?_, ?_, ?_, ?_⟩
  · have hwell : drawer.WellFormed := FileTree.wellFormed_of_entries (by decide)
    exact hsaved drawerCache "new" drawer drawerAfter hwell drawer_saved
  · obtain ⟨_, hloaded⟩ := htexts "foreign" drawer _ rfl
    exact (hloaded _ (read_misfit .null)).1 nofun
  · obtain ⟨hrefused, _⟩ := htexts "cut" drawer _ rfl
    exact hrefused.2 (.inl read_cutText)
  · obtain ⟨hrefused, _⟩ := htexts "misfit" drawer _ rfl
    refine hrefused.2 (.inr ⟨_, read_misfit (.text cacheVersion), rfl, fun c hc => ?_⟩)
    cases hc.components with
    | given hgiven => cases hgiven

end ArchSpec.Cache
