import ArchSpec.Model.Basic

/-!
# Cycles

A cycle is a list of components each of which depends on the next one and the last on the first.
The search goes depth first through the dependencies that components record. It starts at every
component in the order of IDs, stops at the first cycle that it meets, and does not come back to
what it has passed, so it finds at most one cycle from each start.

* `Model.visit` — the search from one component.
* `Model.detectCycles` — the cycles found from all of them.
-/

namespace ArchSpec

/-- How a search ends. In either case `done` holds what need not be searched again. -/
inductive Search where
  | finished (done : List String)
  | found (cycle : List String) (done : List String)
  deriving DecidableEq, Repr

namespace Model

/-- The cycle that a step from the end of a trail back to one of its components closes. The trail
holds the components of the way so far, the last one first. -/
def cycleAt (trail : List String) (id : String) : List String :=
  (trail.takeWhile (· ≠ id) ++ [id]).reverse

/-- Search from each component in a list, which the end of the trail depends on; `visit` is the
search from one component that is neither on the trail nor done. -/
def visitAll (m : Model) (trail : List String) (visit : String → List String → Search) :
    List String → List String → Search
  | [], done => .finished done
  | id :: rest, done =>
    -- the whole trail is done then, also what lies before the cycle
    if trail.contains id then .found (cycleAt trail id) (trail ++ done)
    else if done.contains id || !m.contains id then m.visitAll trail visit rest done
    else match visit id done with
      | .finished done => m.visitAll trail visit rest done
      | .found cycle done => .found cycle done

/-- Search from a component, which is reached by a trail. `fuel` bounds the length of the trail; as
no component comes twice on it, the number of components is enough. -/
def visit (m : Model) : Nat → List String → String → List String → Search
  | 0, _, _, done => .finished done
  | fuel + 1, trail, id, done =>
    match m.visitAll (id :: trail) (m.visit fuel (id :: trail)) (m.dependencies id) done with
    | .finished done => .finished (id :: done)
    | .found cycle done => .found cycle done

/-- The cycles found from a list of starts. -/
def cyclesFrom (m : Model) : List String → List String → List (List String)
  | [], _ => []
  | id :: rest, done =>
    if done.contains id then m.cyclesFrom rest done
    else match m.visit m.components.size [] id done with
      | .finished done => m.cyclesFrom rest done
      | .found cycle done => cycle :: m.cyclesFrom rest done

/-- Cycles of a model: none exactly if it has none. -/
def detectCycles (m : Model) : List (List String) := m.cyclesFrom m.ids []

end Model

end ArchSpec
