import ArchSpec.Failure
import ArchSpec.Model.Cycle

/-!
# Components in dependency order

The order is that of a depth-first search, each component behind what it needs. Searched is usually
a graph with a single edge between two components, the one that was added first, and with a stack,
on which a component stays until what it needs is done and from which of these the first added is
taken first. The recursion here has neither. Through a second edge, or where it is on the stack once
more, a component is met again only after it has been put in the order, and then it is passed over.
So both give the same order, if there is no cycle; and if there is one, no order is asked for.

* `Model.topologicalOrder` — the components, each after all that it needs, unless there is a cycle.
* `Model.reachable` — all that a component needs, directly or not.
-/

namespace ArchSpec.Model

/-! ## Order -/

/-- Put a component behind all that it needs, at the end of an order, unless it is in it. `fuel`
bounds the depth, for which the number of components is enough if there is no cycle. -/
def finish (m : Model) : Nat → String → List String → List String
  | 0, _, order => order
  | fuel + 1, id, order =>
    if order.contains id then order
    else (m.successors id).foldl (fun order next => m.finish fuel next order) order ++ [id]

/-- The components in dependency order: from each one in the order of IDs, depth first along its
edges in the order in which they were added, and each after what it needs. -/
def order (m : Model) : List String :=
  m.ids.foldl (fun order id => m.finish m.components.size id order) []

/-- The components in dependency order, or the cycles that leave no such order. -/
def topologicalOrder (m : Model) : Except (List (List String)) (List String) :=
  let cycles := m.detectCycles
  if cycles.isEmpty then .ok m.order else .error cycles

/-! ## Reachability -/

/-- Add those of a list to a list that are not in it yet. -/
def addNew : List String → List String → List String
  | found, [] => found
  | found, id :: rest => addNew (if found.contains id then found else found ++ [id]) rest

/-- Add what the components of `found` from the number `next` on need, and what those need. Every
component is looked at once, so the number of components bounds the steps. -/
def spread (m : Model) : Nat → Nat → List String → List String
  | 0, _, found => found
  | fuel + 1, next, found =>
    match found[next]? with
    | none => found
    | some id => m.spread fuel (next + 1) (addNew found (m.successors id))

/-- All that a component needs, in order of IDs. It needs itself only if it is on a cycle. -/
def reachable (m : Model) (id : String) : List String :=
  (m.spread m.components.size 0 (addNew [] (m.successors id))).mergeSort (fun a b => decide (a ≤ b))

/-- The component of an ID, or the failure that there is none. -/
def require (m : Model) (id : String) : Except Fault Component :=
  match m.get? id with
  | none => .error (.componentNotFound id)
  | some c => .ok c

/-- All that a component needs, directly or not. -/
def transitiveDependencies (m : Model) (id : String) : Except Fault (List String) :=
  (m.require id).map fun _ => m.reachable id

/-- What a component needs directly, one entry for each edge. -/
def dependenciesOf (m : Model) (id : String) : Except Fault (List Component) :=
  (m.require id).map fun c => c.dependencies.filterMap m.get?

/-- What needs a component directly, one entry for each edge. -/
def dependentsOf (m : Model) (id : String) : Except Fault (List Component) :=
  (m.require id).map fun c => c.dependents.filterMap m.get?

end ArchSpec.Model
