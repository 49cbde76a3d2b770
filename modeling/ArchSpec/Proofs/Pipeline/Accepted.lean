import ArchSpec.Proofs.FileTree.Change
import ArchSpec.Proofs.Pipeline.Stages
import ArchSpec.Proofs.Specification.Typing

/-!
# What an accepted specification depends on

The IDs of an accepted specification have the form of IDs. Its model is determined by the texts of
its own file and of the contracts that it names: where it is accepted again and no file among these
has another text, it has the same model.

* `Accepted.hasIdForm` — the form of IDs.
* `Model.build_congr` — models by the contracts that are read.
* `FileTree.SameText`, `Accepted.unique` — a specification that is accepted again.
-/

namespace ArchSpec

/-! ## IDs -/

theorem exists_of_forall₂ {α β : Type} {r : α → β → Prop} {b : β} : ∀ {as : List α} {bs : List β},
    List.Forall₂ r as bs → b ∈ bs → ∃ a ∈ as, r a b
  | _, _, .cons h hrest, hb => by
    rcases List.mem_cons.1 hb with rfl | hb
    · exact ⟨_, List.mem_cons_self, h⟩
    · obtain ⟨a, ha, hr⟩ := exists_of_forall₂ hrest hb
      exact ⟨a, List.mem_cons_of_mem _ ha, hr⟩

/-- The declarations of a specification that the schema accepts have IDs of the form of IDs. -/
theorem Specification.hasIdForm_of_parseFile {text : String} {file : Path} {s : Specification}
    (hs : parseFile text file = .ok s) (hcheck : Schema.check s.raw = []) :
    ∀ d ∈ s.declarations, Schema.HasIdForm d.id := by
  obtain ⟨raw, hraw⟩ : ∃ raw, ofValue raw file (some text) = .ok s := by
    unfold parseFile parseJson parse at hs
    split at hs
    · split at hs
      · cases hs
      · exact ⟨_, hs⟩
    · split at hs
      · cases hs
      · exact ⟨_, hs⟩
  have hsame : s.raw = raw := by
    unfold ofValue at hraw
    split at hraw
    · cases hraw
      rfl
    · cases hraw
  rw [hsame] at hcheck
  obtain ⟨items, s', hitems, hs', hall⟩ := ofValue_of_check hcheck file (some text)
  rw [hraw, Except.ok.injEq] at hs'
  subst hs'
  obtain ⟨fields, items', rfl, hitems', hfits⟩ := Schema.components_of_check hcheck
  have hitems'' : items = items' := by
    have := hitems
    rw [Value.field?, hitems'] at this
    exact (Option.some.inj this).symm
  subst hitems''
  intro d hd
  obtain ⟨item, hitem, _, hdeclares⟩ := exists_of_forall₂ hall hd
  obtain ⟨fields', rfl, hid, _⟩ := hdeclares
  obtain ⟨_, id, _, _, _, heq, hcomponent⟩ := hfits _ hitem
  cases heq
  have := hcomponent.idField
  rw [hid, Option.some.injEq, Value.text.injEq] at this
  rw [this]
  exact hcomponent.idForm

/-! ## Models by their contracts -/

namespace Model

variable {s : Specification} {base : Path} {read read' : Path → Except Failure Contract}
  {m m' : Model}

/-- The IDs of a model that is built without problems are those of declarations. -/
theorem mem_declarations_of_build (h : build s base read = (m, [])) {id : String} {c : Component}
    (hc : m.get? id = some c) : id ∈ s.declarations.map (·.id) := by
  obtain ⟨m₁, m₂, hbuilt⟩ := Built.of_build (congrArg Prod.snd h)
  rw [h] at hbuilt
  obtain ⟨c₀, hc₀, _⟩ := hbuilt.attached hc
  obtain ⟨d, hd, _, _, rfl, _⟩ := exists_of_typed hc₀
  exact List.mem_map.2 ⟨d, hd, rfl⟩

/-- A component gets the same contract from two ways to read it, if both can. -/
theorem attachContract_congr {c : Component}
    (hread : ∀ path k k', read path = .ok k → read' path = .ok k' → k' = k)
    (h : (attachContract base read c).2 = []) (h' : (attachContract base read' c).2 = []) :
    attachContract base read' c = attachContract base read c := by
  unfold attachContract at h h' ⊢
  split
  · rename_i server hbody
    rw [hbody] at h h'
    simp only at h h'
    split
    · rfl
    · rename_i hnamed
      rw [if_neg hnamed] at h h'
      cases hk : read (Path.join base server.openapi) with
      | error e =>
        rw [hk] at h
        cases h
      | ok k =>
        cases hk' : read' (Path.join base server.openapi) with
        | error e =>
          rw [hk'] at h'
          cases h'
        | ok k' => rw [hread _ k k' hk hk']
  · rfl

/-- **Models by the contracts that are read**: if no path is read as two different contracts, what
is built without problems is the same. -/
theorem build_congr (hread : ∀ path k k', read path = .ok k → read' path = .ok k' → k' = k)
    (h : build s base read = (m, [])) (h' : build s base read' = (m', [])) : m' = m := by
  obtain ⟨m₁, m₂, hbuilt⟩ := Built.of_build (congrArg Prod.snd h)
  obtain ⟨n₁, n₂, hbuilt'⟩ := Built.of_build (congrArg Prod.snd h')
  rw [h] at hbuilt
  rw [h'] at hbuilt'
  have hnil : ((typed s).1.attachContracts base read).2 = [] := by rw [hbuilt.contracts]
  have hnil' : ((typed s).1.attachContracts base read').2 = [] := by rw [hbuilt'.contracts]
  have hattached : (typed s).1.attachContracts base read' =
      (typed s).1.attachContracts base read := by
    have hcomponents : (typed s).1.components.mapValues (fun _ c => attachContract base read' c) =
        (typed s).1.components.mapValues fun _ c => attachContract base read c := by
      refine SortedMap.ext_get? fun id => ?_
      rw [SortedMap.get?_mapValues, SortedMap.get?_mapValues]
      cases hc : (typed s).1.components.get? id with
      | none => rfl
      | some c =>
        exact congrArg some (attachContract_congr hread (attachContracts_eq_nil hnil hc)
          (attachContracts_eq_nil hnil' hc))
    unfold attachContracts
    rw [hcomponents]
  have hcontracts := hbuilt'.contracts
  rw [hattached, hbuilt.contracts] at hcontracts
  cases hcontracts
  have hreferences := hbuilt'.references
  rw [hbuilt.references] at hreferences
  cases hreferences
  have hbindings := hbuilt'.bindings
  rw [hbuilt.bindings] at hbindings
  cases hbindings
  rfl

end Model

/-! ## Specifications that are accepted again -/

/-- A path is not read as two different texts in two trees. -/
def FileTree.SameText (t u : FileTree) (p : Path) : Prop :=
  ∀ text text', t.readText p = .ok text → u.readText p = .ok text' → text' = text

theorem Specification.load_ok {path : Path} {s : Specification} {t u : FileTree}
    (h : (load path : Action (StateM FileTree) Specification).run t = (.ok s, u)) :
    ∃ text, t.readText path = .ok text ∧ parseFile text path = .ok s := by
  have hparsed : ∀ {v : FileTree}, (Action.ofStore ("Failed to read specification: " ++ path)
      (FileStore.readText path) >>= fun source => Action.ofFault (parseFile source path) :
        Action (StateM FileTree) Specification).run v = (.ok s, u) →
      ∃ text, v.readText path = .ok text ∧ parseFile text path = .ok s := by
    intro v hv
    obtain ⟨text, w, htext, hv⟩ := Action.bind_ok hv
    exact ⟨text, congrArg Prod.fst (Action.ofStore_ok htext), Action.ofFault_ok hv⟩
  obtain ⟨there, v, hask, h⟩ := Action.bind_ok h
  cases hask
  cases hthere : t.existsAt path with
  | false =>
    rw [hthere] at h
    obtain ⟨_, v, hfail, _⟩ := Action.bind_ok h
    cases hfail
  | true =>
    rw [hthere] at h
    exact hparsed h

theorem Contract.load_ok {path : Path} {k : Contract} {t u : FileTree}
    (h : (load path : Action (StateM FileTree) Contract).run t = (.ok k, u)) :
    ∃ text, t.readText path = .ok text ∧ OpenApi.contract text = .ok k := by
  obtain ⟨text, v, htext, h⟩ := Action.bind_ok h
  exact ⟨text, congrArg Prod.fst (Action.ofStore_ok htext), congrArg Prod.fst h⟩

/-- What is read from several paths is what is read from each. -/
theorem Contract.mem_loadAll : ∀ {paths : List Path} {t : FileTree} {path : Path}
    {r : Except Failure Contract}, (path, r) ∈ ((loadAll paths : StateM FileTree _) t).1 →
      path ∈ paths ∧ r = ((load path : Action (StateM FileTree) Contract).run t).1
  | [], _, _, _, h => by cases h
  | first :: rest, t, path, r, h => by
    rw [loadAll, bind_apply, bind_apply] at h
    rcases List.mem_cons.1 h with heq | h
    · cases heq
      exact ⟨List.mem_cons_self, rfl⟩
    · rw [Contract.load_keeps first t] at h
      obtain ⟨hpath, hr⟩ := mem_loadAll h
      exact ⟨List.mem_cons_of_mem _ hpath, hr⟩

/-- A contract of a specification is that of a file that it names. -/
theorem contractsAt_ok {t : FileTree} {s : Specification} {path : Path} {k : Contract}
    (h : contractsAt t s path = .ok k) : path ∈ Model.contractPaths s s.baseDirectory ∧
      ∃ text, t.readText path = .ok text ∧ OpenApi.contract text = .ok k := by
  unfold contractsAt Stage.contractFor at h
  generalize hfound : ((Contract.loadAll (Model.contractPaths s s.baseDirectory) :
    StateM FileTree _) t).1 = found at h
  cases hl : found.lookup path with
  | none =>
    rw [hl] at h
    cases h
  | some r =>
    rw [hl, Option.getD_some] at h
    obtain ⟨before, later, hsplit, _⟩ := List.lookup_eq_some_iff.1 hl
    have hmem : (path, r) ∈ ((Contract.loadAll (Model.contractPaths s s.baseDirectory) :
        StateM FileTree _) t).1 := by
      rw [hfound, hsplit]
      simp
    obtain ⟨hpath, hr⟩ := Contract.mem_loadAll hmem
    rw [h] at hr
    exact ⟨hpath, Contract.load_ok (Prod.ext hr.symm rfl)⟩

namespace Accepted

variable {t u : FileTree} {source : Path} {s s' : Specification} {m m' : Model}

theorem hasIdForm (h : Accepted t source s m) {id : String} {c : Component}
    (hc : m.get? id = some c) : Schema.HasIdForm id := by
  obtain ⟨text, _, hparse⟩ := Specification.load_ok h.load
  obtain ⟨d, hd, rfl⟩ := List.mem_map.1 (Model.mem_declarations_of_build h.build hc)
  exact Specification.hasIdForm_of_parseFile hparse h.schema d hd

/-- The IDs of an accepted specification have no separators of paths. -/
theorem not_mem_slash (h : Accepted t source s m) (id : String) (c : Component)
    (hc : m.get? id = some c) : '/' ∉ id.toList := (h.hasIdForm hc).not_mem_slash

theorem wellFormed (h : Accepted t source s m) : m.WellFormed := by
  have hbuilt := Model.WellFormed.build s s.baseDirectory (contractsAt t s)
  rwa [h.build] at hbuilt

/-- The text of an accepted specification. -/
theorem readText (h : Accepted t source s m) : ∃ text, t.readText source = .ok text := by
  obtain ⟨text, htext, _⟩ := Specification.load_ok h.load
  exact ⟨text, htext⟩

/-- **A specification that is accepted again has the same model**, if no file that it depends on has
another text. -/
theorem unique (h : Accepted t source s m) (h' : Accepted u source s' m')
    (hsource : t.SameText u source)
    (hcontracts : ∀ path ∈ Model.contractPaths s s.baseDirectory, t.SameText u path) :
    s' = s ∧ m' = m := by
  obtain ⟨text, htext, hparse⟩ := Specification.load_ok h.load
  obtain ⟨text', htext', hparse'⟩ := Specification.load_ok h'.load
  obtain rfl := hsource text text' htext htext'
  rw [hparse, Except.ok.injEq] at hparse'
  subst hparse'
  refine ⟨rfl, Model.build_congr (fun path k k' hk hk' => ?_) h.build h'.build⟩
  obtain ⟨hpath, x, hx, hcontract⟩ := contractsAt_ok hk
  obtain ⟨_, x', hx', hcontract'⟩ := contractsAt_ok hk'
  obtain rfl := hcontracts path hpath x x' hx hx'
  rw [hcontract, Except.ok.injEq] at hcontract'
  exact hcontract'.symm

end Accepted

end ArchSpec
