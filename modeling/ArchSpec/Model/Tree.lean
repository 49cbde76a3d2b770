import ArchSpec.Model.Order

/-!
# Dependency trees

The tree of a component shows every walk along edges from it that does not go on from a component
it has already passed. A walk that comes back is shown and marked, and ends there.

* `Model.branches` — the walks, in the order in which they are shown.
* `Branch.text` — how one of them is shown.
-/

namespace ArchSpec

/-- A walk from the root of a tree, as the tree shows its end. -/
structure Branch where
  /-- The edges of the walk, and whether each one is the last of its source. -/
  walk : List (Edge × Bool)
  /-- The kind of the component at the end. -/
  kind : Kind
  /-- Whether that component comes earlier on the walk. -/
  repeated : Bool
  deriving DecidableEq, Repr

namespace Branch

/-- What stands below an edge in front of a branch: a line if more edges follow. -/
def indentOf (last : Bool) : String := if last then "    " else "│   "

/-- What stands in front of the branches below this one. -/
def indent (walk : List (Edge × Bool)) : String := String.join (walk.map fun e => indentOf e.2)

def text (b : Branch) : String :=
  match b.walk.getLast? with
  | none => ""
  | some (edge, last) =>
    indent b.walk.dropLast ++ (if last then "└── " else "├── ") ++ edge.target ++ " (" ++
      b.kind.text ++ ") [" ++ edge.relation.text ++ "]\n" ++
      (if b.repeated then indent b.walk ++ "└── (circular reference)\n" else "")

end Branch

namespace Model

/-- The edges from a component, and whether each one is the last. -/
def edgesWithEnd : List Edge → List (Edge × Bool)
  | [] => []
  | [e] => [(e, true)]
  | e :: rest => (e, false) :: edgesWithEnd rest

/-- The branches that begin with a walk and go on by an edge from a component. `passed` holds the
components of the walk. `fuel` bounds its length; as a walk goes on only from components that it
has not passed before, the number of components is enough. -/
def branches (m : Model) : Nat → List (Edge × Bool) → List String → String → List Branch
  | 0, _, _, _ => []
  | fuel + 1, walk, passed, id =>
    (edgesWithEnd (m.edgesFrom id)).flatMap fun e =>
      match m.get? e.1.target with
      | none => []
      | some c =>
        let walk := walk ++ [e]
        if passed.contains c.id then [⟨walk, c.kind, true⟩]
        else ⟨walk, c.kind, false⟩ :: m.branches fuel walk (c.id :: passed) c.id

/-- All branches of the tree of a component. -/
def treeOf (m : Model) (id : String) : List Branch := m.branches m.components.size [] [id] id

/-- The tree of a component, in lines. -/
def dependencyTree (m : Model) (id : String) : Except Fault String :=
  (m.require id).map fun c =>
    c.id ++ " (" ++ c.kind.text ++ ")\n" ++ String.join ((m.treeOf id).map Branch.text)

end Model

end ArchSpec
