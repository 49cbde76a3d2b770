import ArchSpec.Text.Quoted

/-!
# HTTP methods
-/

namespace ArchSpec

/-- The methods that bindings and contracts may use. -/
inductive Method where
  | get
  | post
  | put
  | patch
  | delete
  | head
  | options
  deriving DecidableEq, Repr, Inhabited

namespace Method

def all : List Method := [.get, .post, .put, .patch, .delete, .head, .options]

/-- The written form, in upper case. -/
def text : Method → String
  | .get => "GET"
  | .post => "POST"
  | .put => "PUT"
  | .patch => "PATCH"
  | .delete => "DELETE"
  | .head => "HEAD"
  | .options => "OPTIONS"

def ofText? (s : String) : Option Method := all.find? (fun m => m.text = s)

/-- The message for a text that names no method. -/
def invalidMessage (s : String) : String := "invalid HTTP method " ++ Text.quoted s

/-- The key of an operation: its method and its path. -/
def key (m : Method) (path : String) : String := m.text ++ ":" ++ path

theorem mem_all (m : Method) : m ∈ all := by
  cases m <;> decide

theorem ofText?_text (m : Method) : ofText? m.text = some m := by
  cases m <;> decide

theorem text_of_ofText? {s : String} {m : Method} (h : ofText? s = some m) : m.text = s := by
  have := List.find?_some h
  simpa using this

end Method

end ArchSpec
