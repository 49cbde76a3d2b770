import ArchSpec.Contract

/-!
# Bindings

A use-case says where it is offered by `SERVER:METHOD:PATH`. Only the first two colons separate;
the path may hold more.

* `Binding.parse` — the binding that a text writes, or why it writes none.
* `Binding.serverOf?` — the server of a text, also when the rest is malformed.
-/

namespace ArchSpec

/-- The route that a use-case is bound to, with its operation once that is known. -/
structure Binding where
  server : String
  method : Method
  path : String
  operation : Option Operation
  deriving Inhabited

namespace Binding

/-- The key of the operation: its method and its path. -/
def key (b : Binding) : String := b.method.key b.path

/-- Why a text writes no binding. -/
inductive Fault where
  | empty
  /-- There are fewer than two colons in the text. -/
  | malformed (text : String)
  | missingServer (text : String)
  | badMethod (method : String)
  | badPath (path : String)
  deriving DecidableEq, Repr

def Fault.message : Fault → String
  | .empty => "empty binds_to value"
  | .malformed text =>
    "invalid binds_to format: " ++ text ++ " (expected server:METHOD:/path)"
  | .missingServer text => "missing server id in binds_to: " ++ text
  | .badMethod m => "invalid HTTP method: " ++ m
  | .badPath p => "path must start with /: " ++ p

/-- The three segments of a text, if it has two colons. -/
def segments? (cs : List Char) : Option (List Char × List Char × List Char) :=
  match Text.cut ':' cs with
  | (_, none) => none
  | (server, some rest) =>
    match Text.cut ':' rest with
    | (_, none) => none
    | (method, some path) => some (server, method, path)

/-- The binding that a text writes. -/
def parse (s : String) : Except Fault Binding :=
  if s.isEmpty then .error .empty
  else match segments? s.toList with
    | none => .error (.malformed s)
    | some (server, method, path) =>
      if server.isEmpty then .error (.missingServer s)
      else match Method.ofText? (String.ofList method) with
        | none => .error (.badMethod (String.ofList method))
        | some m =>
          if path.head? = some '/' then
            .ok ⟨String.ofList server, m, String.ofList path, none⟩
          else .error (.badPath (String.ofList path))

/-- The text before the first colon, unless it is empty. -/
def serverOf? (s : String) : Option String :=
  match Text.cut ':' s.toList with
  | (_, none) => none
  | (server, some _) => if server.isEmpty then none else some (String.ofList server)

def toValue (b : Binding) : Value :=
  .ofFields ([("server_id", .text b.server), ("method", .text b.method.text),
    ("path", .text b.path)] ++ optionalField "operation" (b.operation.map Operation.toValue))

end Binding

end ArchSpec
