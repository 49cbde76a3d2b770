import ArchSpec.Diagnostic
import ArchSpec.SortedMap

/-!
# Symbols

Names, and what they stand for. A name is defined once; a second definition is refused and changes
nothing.
-/

namespace ArchSpec

/-- What a name stands for. -/
structure Symbol where
  name : String
  kind : Kind
  /-- The component that the name belongs to. -/
  component : String
  deriving DecidableEq, Repr, Inhabited

/-- Names with what they stand for. -/
structure SymbolTable where
  symbols : SortedMap Symbol
  deriving Inhabited

namespace SymbolTable

def empty : SymbolTable := ⟨.empty⟩

/-- What a name stands for, if it is defined. -/
def get? (t : SymbolTable) (name : String) : Option Symbol := t.symbols.get? name

/-- All symbols in the order of their names. -/
def toList (t : SymbolTable) : List Symbol := t.symbols.values

def size (t : SymbolTable) : Nat := t.symbols.size

/-- Define a name that is not defined yet. -/
def define (t : SymbolTable) (name : String) (kind : Kind) (component : String) :
    Except Diagnostic SymbolTable :=
  match t.get? name with
  | some s => .error (.duplicateSymbol name s.kind.text none)
  | none => .ok ⟨t.symbols.insert name ⟨name, kind, component⟩⟩

end SymbolTable

end ArchSpec
