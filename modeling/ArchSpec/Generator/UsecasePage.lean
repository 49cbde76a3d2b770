import ArchSpec.Generator.Basic

/-!
# Pages of use-cases

A page of documentation for each use-case, to be completed by hand: goal, actor, route, middleware
and what has to hold before and after. What a use-case does not say is left out.

* `UsecasePage.routeOf` — the route of a use-case, by its binding or by the text of one.
* `UsecasePage.content` — the page.
-/

namespace ArchSpec.UsecasePage

/-- The route that a page shows. -/
structure Route where
  server : String
  method : String
  path : String
  deriving DecidableEq, Repr

/-- The segments of a text between its first two colons, as far as they are there. -/
def segments (cs : List Char) : Route :=
  match Text.cut ':' cs with
  | (server, none) => ⟨String.ofList server, "", ""⟩
  | (server, some rest) =>
    match Text.cut ':' rest with
    | (method, none) => ⟨String.ofList server, String.ofList method, ""⟩
    | (method, some path) => ⟨String.ofList server, String.ofList method, String.ofList path⟩

def routeOf (u : Usecase) : Route :=
  match u.binding with
  | some b => ⟨b.server, b.method.text, b.path⟩
  | none => segments u.bindsTo.toList

/-- The operation that a use-case is bound to. -/
def operationOf? (u : Usecase) : Option Operation := u.binding.bind (·.operation)

/-- A part of a page that is left out with an empty text. -/
def unlessEmpty (s : String) (part : String) : String := if s.isEmpty then "" else part

def bullets (items : List String) : String := String.join (items.map fun i => "- " ++ i ++ "\n")

/-- A text set as code. -/
def code (s : String) : String := "\x60" ++ s ++ "\x60"

def operationPart (o : Operation) : String :=
  let id := o.id.getD ""
  unlessEmpty id ("\nContract operation: " ++ code id ++
    unlessEmpty o.summary (" (" ++ o.summary ++ ")") ++ "\n")

def middlewarePart (names : List String) : String :=
  "\n## Middleware\n\n" ++ if names.isEmpty then "None.\n" else bullets (names.map code)

/-- A list with its title on a page. -/
def listPart (title : String) (items : Option (List String)) : String :=
  let items := items.getD []
  if items.isEmpty then "" else "\n## " ++ title ++ "\n\n" ++ bullets items

def content (m : Model) (id : String) (u : Usecase) : String :=
  let route := routeOf u
  "# " ++ id ++ "\n\n**Goal:** " ++ u.goal ++ "\n" ++
    unlessEmpty u.actor ("\n**Actor:** " ++ u.actor ++ "\n") ++
    "\n## Route\n\n" ++ code (route.method ++ " " ++ route.path) ++ " on " ++ code route.server ++
    "\n" ++ ((operationOf? u).map operationPart).getD "" ++
    middlewarePart (m.effectiveMiddleware u) ++
    listPart "Preconditions" u.preconditions ++
    listPart "Acceptance Criteria" u.acceptanceCriteria ++
    listPart "Postconditions" u.postconditions

/-- Where the page of a use-case is written. -/
def path (id : String) : String := "docs/usecases/" ++ id ++ ".md"

/-- The pages of all use-cases, in the order of their IDs. -/
def pages (m : Model) : List (String × GeneratedFile) :=
  m.components.values.filterMap fun c =>
    c.usecase?.map fun u => (path c.id, ⟨content m c.id u, .writeOnce, some c.id⟩)

/-- The generator of the pages, which runs if there is a use-case. -/
def generator : Generator := ⟨"usecase-docs", [.usecase], fun m => .ok (.ofList (pages m))⟩

end ArchSpec.UsecasePage
