/-!
# Places in a document

Lines and columns count from one, columns in characters.
-/

namespace ArchSpec

/-- A place in a source document. -/
structure Position where
  file : String
  line : Nat
  column : Nat
  deriving DecidableEq, Repr, Inhabited

namespace Position

/-- The place as messages show it; a document without a name shows only line and column. -/
def text (p : Position) : String :=
  if p.file.isEmpty then toString p.line ++ ":" ++ toString p.column
  else p.file ++ ":" ++ toString p.line ++ ":" ++ toString p.column

/-- Places in order of file, line and column. -/
def order (p q : Position) : Ordering :=
  (compare p.file q.file).then ((compare p.line q.line).then (compare p.column q.column))

/-- Known places in their order, and a missing one after all of them. -/
def orderLast : Option Position → Option Position → Ordering
  | some p, some q => p.order q
  | some _, none => .lt
  | none, some _ => .gt
  | none, none => .eq

end Position

end ArchSpec
