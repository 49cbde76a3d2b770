import ArchSpec.Proofs.Contract
import ArchSpec.Proofs.Text
import Mathlib.Data.List.Nodup

/-!
# Operations that documents define

A contract keeps its operations in one table, under texts made of a method and a path, and an
operation that is put in replaces what is under its text. No two operations of a document have one
text, whatever colons and names of methods their paths contain. So none is lost, and a look-up finds
an operation exactly where the document defines one.

* `Contract.routes` — the method and the path of each operation of a contract.
* `Contract.get?_foldl_insert` — of operations with different keys, each is kept.
* `Document.Defines` — the operation that a document writes for a method and a path.
* `Document.nodup_keys` — the operations of a document have different keys.
* `Document.find?_contract_iff` — what a look-up in the contract of a document finds.
* `contract_mirrors` — contracts that are read hold what their documents define, and nothing else.
-/

namespace ArchSpec

namespace Contract

variable {k : Contract} {m : Method} {path : String}

/-- The method and the path of each operation, in the order of the keys. -/
def routes (k : Contract) : List (Method × String) :=
  k.operations.values.map fun o => (o.method, o.path)

theorem WellKeyed.map_key_routes (h : k.WellKeyed) :
    (k.routes.map fun r => r.1.key r.2) = k.operations.keys := by
  unfold routes SortedMap.values SortedMap.keys
  rw [List.map_map, List.map_map]
  apply List.map_congr_left
  intro e he
  exact h e.1 e.2 ((k.operations.mem_entries_iff e.1 e.2).1 he)

theorem WellKeyed.nodup_routes (h : k.WellKeyed) : k.routes.Nodup := by
  apply List.Nodup.of_map fun r : Method × String => r.1.key r.2
  rw [h.map_key_routes]
  exact k.operations.nodup_keys

theorem WellKeyed.mem_routes_iff (h : k.WellKeyed) :
    (m, path) ∈ k.routes ↔ (k.find? m path).isSome = true := by
  unfold routes
  rw [List.mem_map, Option.isSome_iff_exists]
  constructor
  · rintro ⟨o, ho, hroute⟩
    exact ⟨o, h.find?_eq_some.2 ⟨ho, Prod.mk.inj hroute⟩⟩
  · rintro ⟨o, ho⟩
    obtain ⟨hvalue, rfl, rfl⟩ := h.find?_eq_some.1 ho
    exact ⟨o, hvalue, rfl⟩

theorem operations_foldl_insert (os : List Operation) (k : Contract) :
    (os.foldl insert k).operations =
      os.foldl (fun table o => table.insert o.key o) k.operations := by
  induction os generalizing k with
  | nil => rfl
  | cons o os ih => exact ih (k.insert o)

/-- **Of operations with different keys, each is kept** in a contract that had none before. -/
theorem get?_foldl_insert {os : List Operation} (hempty : k.operations = .empty)
    (hkeys : (os.map Operation.key).Nodup) {key : String} {o : Operation} :
    (os.foldl insert k).operations.get? key = some o ↔ o ∈ os ∧ o.key = key := by
  have htable : (os.foldl insert k).operations = .ofList (os.map fun o => (o.key, o)) := by
    rw [operations_foldl_insert, hempty, SortedMap.ofList, List.foldl_map]
  have hnodup : ((os.map fun o => (o.key, o)).map (·.1)).Nodup := by
    rw [List.map_map]
    exact hkeys
  rw [htable, SortedMap.get?_ofList_iff hnodup, List.mem_map]
  constructor
  · rintro ⟨o', ho', he⟩
    cases he
    exact ⟨ho', rfl⟩
  · rintro ⟨ho, rfl⟩
    exact ⟨o, ho, rfl⟩

end Contract

namespace OpenApi

/-! ## What a document defines -/

/-- A path has an operation for a method if the field of the method is written. -/
inductive PathItem.Has (i : PathItem) (node : OperationNode) : Method → Prop
  | get (h : i.get = some node) : Has i node .get
  | post (h : i.post = some node) : Has i node .post
  | put (h : i.put = some node) : Has i node .put
  | patch (h : i.patch = some node) : Has i node .patch
  | delete (h : i.delete = some node) : Has i node .delete
  | head (h : i.head = some node) : Has i node .head
  | options (h : i.options = some node) : Has i node .options

namespace PathItem

variable {i : PathItem} {node : OperationNode} {m : Method} {path : String} {o : Operation}

theorem at?_eq_some_iff : i.at? m = some node ↔ i.Has node m := by
  constructor
  · intro h
    cases m with
    | get => exact .get h
    | post => exact .post h
    | put => exact .put h
    | patch => exact .patch h
    | delete => exact .delete h
    | head => exact .head h
    | options => exact .options h
  · rintro (h | h | h | h | h | h | h) <;> exact h

theorem mem_operations_iff : o ∈ i.operations path ↔
    ∃ m node, i.Has node m ∧ o = node.operation m path i.parameters := by
  simp only [operations, List.mem_filterMap, Option.map_eq_some_iff, Method.mem_all, true_and,
    at?_eq_some_iff, eq_comm (a := o)]

theorem path_of_mem_operations (h : o ∈ i.operations path) : o.path = path := by
  obtain ⟨m, node, _, rfl⟩ := mem_operations_iff.1 h
  rfl

/-- The operations of one path differ in their methods. -/
theorem nodup_keys (i : PathItem) (path : String) :
    ((i.operations path).map Operation.key).Nodup := by
  have hmethods : Method.all.Nodup := by decide
  unfold operations
  rw [List.Nodup, List.pairwise_map, List.pairwise_filterMap]
  refine hmethods.imp fun hne o ho o' ho' hsame => ?_
  obtain ⟨node, _, rfl⟩ := Option.map_eq_some_iff.1 ho
  obtain ⟨node', _, rfl⟩ := Option.map_eq_some_iff.1 ho'
  exact hne (Method.key_inj.1 hsame).1

end PathItem

namespace Document

variable {d : Document} {m : Method} {path : String} {node : OperationNode} {o : Operation}

/-- A document writes an operation for a method under a path, the path taken as it is written. -/
def Defines (d : Document) (m : Method) (path : String) (node : OperationNode) : Prop :=
  ∃ item, d.paths.get? path = some item ∧ item.Has node m

/-- The operations of all paths. -/
def operations (d : Document) : List Operation :=
  d.paths.entries.flatMap fun e => e.2.operations e.1

theorem mem_operations_iff : o ∈ d.operations ↔ ∃ path item, d.paths.get? path = some item ∧
    o ∈ item.operations path := by
  simp only [operations, List.mem_flatMap, Prod.exists, d.paths.mem_entries_iff]

/-- **No two operations of a document have one key.** -/
theorem nodup_keys (d : Document) : (d.operations.map Operation.key).Nodup := by
  unfold operations
  rw [List.map_flatMap, List.nodup_flatMap]
  refine ⟨fun e _ => e.2.nodup_keys e.1, d.paths.increasing.imp ?_⟩
  intro e e' hlt key hkey hkey'
  obtain ⟨o, ho, rfl⟩ := List.mem_map.1 hkey
  obtain ⟨o', ho', hsame⟩ := List.mem_map.1 hkey'
  -- a key tells its path, and the paths increase
  have hpath : o'.path = o.path := (Method.key_inj.1 hsame).2
  rw [PathItem.path_of_mem_operations ho, PathItem.path_of_mem_operations ho'] at hpath
  exact String.lt_irrefl e.1 (hpath ▸ hlt)

/-- What is kept under a key is the operation of the document that has it. -/
theorem get?_contract_iff {key : String} :
    d.contract.operations.get? key = some o ↔ o ∈ d.operations ∧ o.key = key := by
  refine Contract.get?_foldl_insert ?_ d.nodup_keys
  cases d.info <;> rfl

/-- **A look-up finds what the document writes** for the method and the path. -/
theorem find?_contract_iff : d.contract.find? m path = some o ↔
    ∃ item node, d.paths.get? path = some item ∧ item.Has node m ∧
      o = node.operation m path item.parameters := by
  rw [Contract.find?, get?_contract_iff, mem_operations_iff]
  constructor
  · rintro ⟨⟨path', item, hitem, ho⟩, hkey⟩
    obtain ⟨m', node, hnode, rfl⟩ := PathItem.mem_operations_iff.1 ho
    obtain ⟨hm, hp⟩ := Method.key_inj.1 hkey
    cases hm
    cases hp
    exact ⟨item, node, hitem, hnode, rfl⟩
  · rintro ⟨item, node, hitem, hnode, rfl⟩
    exact ⟨⟨path, item, hitem, PathItem.mem_operations_iff.2 ⟨m, node, hnode, rfl⟩⟩, rfl⟩

theorem isSome_find?_contract_iff :
    (d.contract.find? m path).isSome = true ↔ ∃ node, d.Defines m path node := by
  rw [Option.isSome_iff_exists]
  constructor
  · rintro ⟨o, ho⟩
    obtain ⟨item, node, hitem, hnode, -⟩ := find?_contract_iff.1 ho
    exact ⟨node, item, hitem, hnode⟩
  · rintro ⟨node, item, hitem, hnode⟩
    exact ⟨_, find?_contract_iff.2 ⟨item, node, hitem, hnode, rfl⟩⟩

end Document

/-! ## Contracts that are read -/

/-- A contract has one operation for each method and path for which a document defines one, under
its own key, and finds it by them. -/
structure Mirrors (k : Contract) (d : Document) : Prop where
  nodup : k.routes.Nodup
  routes : ∀ m path, (m, path) ∈ k.routes ↔ ∃ node, d.Defines m path node
  keyed : ∀ key o, k.operations.get? key = some o → key = o.method.text ++ ":" ++ o.path
  found : ∀ m path, (k.find? m path).isSome = true ↔ ∃ node, d.Defines m path node
  /-- What is found tells what is written. -/
  told : ∀ m path o, k.find? m path = some o → ∃ node, d.Defines m path node ∧ o.method = m ∧
    o.path = path ∧ o.id = node.id ∧ o.summary = node.summary ∧
    o.description = node.description ∧ o.tags = node.tags

/-- **The contract of a document of a version 3 mirrors it.** -/
theorem contract_mirrors {source : String} {d : Document} (hread : Document.read source = .ok d)
    (hversion : ∃ rest, d.openapi = "3." ++ rest) :
    ∃ k, contract source = .ok k ∧ Mirrors k d := by
  have hcontract : contract source = .ok d.contract := by
    unfold contract
    rw [hread]
    exact if_pos (Text.beginsWith_iff.2 hversion)
  have hkeyed : d.contract.WellKeyed := contract_wellKeyed hcontract
  refine ⟨d.contract, hcontract, hkeyed.nodup_routes, ?_, ?_, ?_, ?_⟩
  · intro m path
    rw [hkeyed.mem_routes_iff, Document.isSome_find?_contract_iff]
  · intro key o ho
    exact (hkeyed key o ho).symm
  · intro m path
    exact Document.isSome_find?_contract_iff
  · intro m path o ho
    obtain ⟨item, node, hitem, hnode, rfl⟩ := Document.find?_contract_iff.1 ho
    exact ⟨node, ⟨item, hitem, hnode⟩, rfl, rfl, rfl, rfl, rfl, rfl⟩

/-- Two paths of which one is the other, a colon, a method and more. -/
def nestedPaths : String :=
  "openapi: '3.0'\npaths:\n  /a:\n    get:\n      operationId: x\n    head:\n      summary: y\n" ++
    "  /a:GET:/b:\n    get:\n      operationId: z\n"

/-- Paths that contain colons and methods are told apart. -/
theorem contract_mirrors_nestedPaths : ∃ d k, Document.read nestedPaths = .ok d ∧
    (∃ rest, d.openapi = "3." ++ rest) ∧ contract nestedPaths = .ok k ∧ Mirrors k d ∧
    k.operations.keys = ["GET:/a", "GET:/a:GET:/b", "HEAD:/a"] := by
  have hopenapi : (Document.read nestedPaths).toOption.map Document.openapi = some "3.0" := by
    decide +kernel
  have hkeys : (contract nestedPaths).toOption.map (·.operations.keys) =
      some ["GET:/a", "GET:/a:GET:/b", "HEAD:/a"] := by
    decide +kernel
  cases hread : Document.read nestedPaths with
  | error e =>
    rw [hread] at hopenapi
    cases hopenapi
  | ok d =>
    rw [hread] at hopenapi
    have hversion : ∃ rest, d.openapi = "3." ++ rest := ⟨"0", Option.some.inj hopenapi⟩
    obtain ⟨k, hcontract, hmirrors⟩ := contract_mirrors hread hversion
    rw [hcontract] at hkeys
    exact ⟨d, k, rfl, hversion, hcontract, hmirrors, Option.some.inj hkeys⟩

end OpenApi

end ArchSpec
