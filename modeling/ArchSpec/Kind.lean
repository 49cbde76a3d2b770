/-!
# Kinds of components

A specification is made of components, and each has exactly one kind. The set is closed. A document
may use the canonical spelling of a kind or, for servers and databases, an abstract one.
-/

namespace ArchSpec

/-- What a component is. -/
inductive Kind where
  | server
  | middleware
  | database
  | usecase
  deriving DecidableEq, Repr, Inhabited

namespace Kind

def all : List Kind := [.server, .middleware, .database, .usecase]

/-- The canonical spelling. -/
def text : Kind → String
  | .server => "http.server"
  | .middleware => "middleware"
  | .database => "postgres"
  | .usecase => "usecase"

/-- Every spelling that a document may use, canonical ones first. -/
def spellings : List String :=
  ["http.server", "middleware", "postgres", "usecase", "server", "database"]

def ofText? (s : String) : Option Kind :=
  if s = "http.server" ∨ s = "server" then some .server
  else if s = "middleware" then some .middleware
  else if s = "postgres" ∨ s = "database" then some .database
  else if s = "usecase" then some .usecase
  else none

/-- The message for a spelling of no kind. -/
def unknownMessage (s : String) : String := "unknown kind: " ++ s

theorem ofText?_text (k : Kind) : ofText? k.text = some k := by
  cases k <;> decide

end Kind

end ArchSpec
