import ArchSpec.Generator.UsecasePage
import ArchSpec.Json.Writer

/-!
# The generators that are always there

* `Snapshot.generator` — the whole model as JSON, for other tools.
* `Registry.builtin` — the snapshot and the pages of use-cases.
-/

namespace ArchSpec

namespace Snapshot

/-- Where the snapshot is written. -/
def path : String := ".bound/ir.json"

def content (m : Model) : String := Json.pretty m.toValue ++ "\n"

/-- The generator of the snapshot, which runs for every model. -/
def generator : Generator :=
  ⟨"ir-snapshot", [], fun m =>
    .ok (SortedMap.empty.insert path ⟨content m, .overwrite, none⟩)⟩

end Snapshot

/-- The registry of the snapshot and the pages of use-cases. -/
def Registry.builtin : Registry := ⟨[Snapshot.generator, UsecasePage.generator], by decide⟩

end ArchSpec
