import ArchSpec.Yaml.Scalar

/-!
# Reading values out of a YAML document

A document is read by what the reader asks for: any value at all, or a text, a truth value, a list,
a table, a record with known fields. Nesting is limited to 128 levels, and the number of aliases
followed to a hundred times the size of the document, so that a small text cannot describe a huge
value.

* `readValue` — the value of a text, whatever it is.
* `Decoder` and its functions — what readers of known layouts are made of.
-/

namespace ArchSpec.Yaml

/-- A reading that counts the aliases it follows. -/
abbrev Decoder := StateT Nat (Except Fault)

/-- The deepest nesting. -/
def maxDepth : Nat := 128

namespace Document

/-- The tree of an anchor number. -/
def anchored? (d : Document) (id : Nat) : Option Tree := d.anchors.reverse.lookup id

/-- A tree, or what it repeats if it is an alias. -/
def follow (d : Document) : Tree → Decoder Tree
  | .alias id => do
    let n ← get
    if n + 1 > d.size * 100 then throw .tooManyAliases
    set (n + 1)
    match d.anchored? id with
    | none => throw .unknownAnchor
    | some t => return t
  | t => return t

/-- A scalar as it is written. -/
def text (d : Document) (t : Tree) : Decoder String := do
  match ← d.follow t with
  | .scalar _ s _ => return s
  | _ => throw .wrongType

/-- Any value; `depth` more levels may open. -/
def value (d : Document) : (depth : Nat) → Tree → Decoder Value
  | depth, t => do
    match ← d.follow t with
    | .scalar tag s style => scalarValue tag s style
    | .sequence tag items =>
      if isLocalTag tag then throw .wrongType
      match depth with
      | 0 => throw .tooDeep
      | depth + 1 => return .list (← items.mapM (d.value depth))
    | .mapping tag entries =>
      if isLocalTag tag then throw .wrongType
      match depth with
      | 0 => throw .tooDeep
      | depth + 1 =>
        let fields ← entries.mapM fun e => do
          let key ← d.text e.1
          return (key, ← d.value depth e.2)
        return Value.ofFields fields
    | .alias _ => throw .wrongType

/-- A truth value, written without quotes. -/
def flag (d : Document) (t : Tree) : Decoder Bool := do
  match ← d.follow t with
  | .scalar tag s style =>
    if style = .plain || (style = .literal && tag = some boolTag) then
      match truth? s with
      | some b => return b
      | none => throw .wrongType
    else throw .wrongType
  | _ => throw .wrongType

/-- Whether a tree is a scalar that is not written at all. -/
def isUnwritten : Tree → Bool
  | .scalar _ "" .plain => true
  | _ => false

/-- Whether a scalar stands for an absent value. -/
def isAbsent (tag : Option String) (s : String) (style : Style) : Except Fault Bool :=
  if style ≠ .plain then .ok false
  else match tag with
    | none => .ok (s.isEmpty || isNull s)
    | some t =>
      if t = nullTag then (if isNull s then .ok true else .error .wrongType) else .ok false

def optional {α : Type} (d : Document) (read : Tree → Decoder α) (t : Tree) :
    Decoder (Option α) := do
  let t ← d.follow t
  match t with
  | .scalar tag s style =>
    if ← isAbsent tag s style then return none else return some (← read t)
  | _ => return some (← read t)

/-- A list; one that is not written is empty. -/
def list {α : Type} (d : Document) (read : Nat → Tree → Decoder α) (depth : Nat) (t : Tree) :
    Decoder (List α) := do
  let t ← d.follow t
  match t, depth with
  | .sequence .., 0 => throw .tooDeep
  | .sequence _ items, depth + 1 => items.mapM (read depth)
  | t, _ => if isUnwritten t then return [] else throw .wrongType

/-- The entries of a mapping with the levels left inside; one that is not written is empty. -/
def entries (d : Document) (depth : Nat) (t : Tree) : Decoder (Nat × List (String × Tree)) := do
  let t ← d.follow t
  match t, depth with
  | .mapping .., 0 => throw .tooDeep
  | .mapping _ es, depth + 1 => return (depth, ← es.mapM fun e => return (← d.text e.1, e.2))
  | t, _ => if isUnwritten t then return (depth, []) else throw .wrongType

/-- A table; of two entries with one key the later one stays. -/
def table {α : Type} (d : Document) (read : Nat → Tree → Decoder α) (depth : Nat) (t : Tree) :
    Decoder (SortedMap α) := do
  let (depth, es) ← d.entries depth t
  return SortedMap.ofList (← es.mapM fun e => return (e.1, ← read depth e.2))

def hasRepeat : List String → Bool
  | [] => false
  | s :: rest => rest.contains s || hasRepeat rest

/-- The known fields of a record with the levels left inside. Other fields say nothing; a known one
may stand only once. -/
def record (d : Document) (known : List String) (depth : Nat) (t : Tree) :
    Decoder (Nat × List (String × Tree)) := do
  let (depth, es) ← d.entries depth t
  let es := es.filter fun e => known.contains e.1
  if hasRepeat (es.map (·.1)) then throw .duplicateField
  return (depth, es)

end Document

/-- A field of a record, or a value for its absence. -/
def fieldOr {α : Type} (fields : List (String × Tree)) (name : String) (absent : α)
    (read : Tree → Decoder α) : Decoder α :=
  match fields.lookup name with
  | none => return absent
  | some t => read t

/-- The tree of a document that is not written at all. -/
def unwritten : Tree := .scalar none "" .plain

def Document.read {α : Type} (d : Document) (read : Tree → Decoder α) : Except Fault α :=
  (read (d.root.getD unwritten)).run' 0

def readValue (s : String) : Except Fault Value := do
  let d ← document s
  d.read (d.value maxDepth)

end ArchSpec.Yaml
