import ArchSpec.Yaml.Lexer

/-!
# Nodes of a YAML document

The tokens of a text describe one tree of scalars, sequences and mappings, whose parts may be named
by anchors and repeated by aliases.

* `Node.ofTokens` — the tree that the tokens describe.
* `Document.ofNode` — the same tree with every alias replaced by a reference to what it repeats.
* `document` — both, for a text.
-/

namespace ArchSpec.Yaml

/-- What stands before a node: a name for it, and its tag. -/
structure Header where
  anchor : Option String
  tag : Option String
  deriving DecidableEq, Repr, Inhabited

def Header.none : Header := ⟨Option.none, Option.none⟩

/-- A node as it is written. -/
inductive Node where
  | scalar (header : Header) (text : String) (style : Style)
  | sequence (header : Header) (items : List Node)
  | mapping (header : Header) (entries : List (Node × Node))
  | alias (name : String)
  deriving Inhabited

namespace Node

/-- The node that is not written at all. -/
def missing : Node := .scalar .none "" .plain

/-- The declared handles of tags and what they stand for. -/
abbrev Handles := List (String × String)

/-- The handles that need no declaration. -/
def defaultHandles : Handles := [("!", "!"), ("!!", "tag:yaml.org,2002:")]

/-- The full tag of a handle and a suffix. -/
def fullTag (handles : Handles) (handle suffix : String) : Except Fault String :=
  if handle.isEmpty then .ok suffix
  else match handles.lookup handle with
    | none => .error .unknownHandle
    | some start => .ok (start ++ suffix)

/-- The header of a node: an anchor and a tag in either order. -/
def takeHeader (handles : Handles) : List Token → Except Fault (Header × List Token)
  | .anchor a :: .tag h t :: rest => do return (⟨some a, some (← fullTag handles h t)⟩, rest)
  | .tag h t :: .anchor a :: rest => do return (⟨some a, some (← fullTag handles h t)⟩, rest)
  | .anchor a :: rest => .ok (⟨some a, none⟩, rest)
  | .tag h t :: rest => do return (⟨none, some (← fullTag handles h t)⟩, rest)
  | rest => .ok (.none, rest)

/-- Whether a value is left out before a token of a block. -/
def missingInBlock : List Token → Bool
  | .key :: _ => true
  | .value :: _ => true
  | .blockEnd :: _ => true
  | _ => false

/-- Whether an entry is left out before a token of a block sequence. -/
def missingEntry : List Token → Bool
  | .blockEntry :: _ => true
  | .blockEnd :: _ => true
  | _ => false

/-- Whether a value is left out before a token of a bracket closed by `close`. -/
def missingInFlow (close : Token) : List Token → Bool
  | .flowEntry :: _ => true
  | t :: _ => t = close
  | [] => false

/-- After an entry inside brackets: a comma, or the closing bracket that is left to be read. -/
def takeSeparator (first : Bool) (close : Token) (ts : List Token) : Except Fault (List Token) :=
  if first then .ok ts
  else match ts with
    | .flowEntry :: rest => .ok rest
    | t :: _ => if t = close then .ok ts else .error .unexpectedToken
    | [] => .error .unexpectedToken

mutual

/-- A node. Blocks begin only where `block` is set; where `indentless` is set, the entries of a
sequence may stand at the column of the mapping around them. Every node takes a token or stands
inside one that does, so the number of tokens bounds `fuel`. -/
def take (handles : Handles) (block indentless : Bool) :
    Nat → List Token → Except Fault (Node × List Token)
  | 0, _ => .error .unexpectedToken
  | fuel + 1, ts =>
    match ts with
    | .alias name :: rest => .ok (.alias name, rest)
    | _ => do
      let (h, rest) ← takeHeader handles ts
      match rest with
      | .scalar text style :: rest => return (.scalar h text style, rest)
      | .flowSequence :: rest =>
        let (items, rest) ← takeFlowItems handles true fuel rest
        return (.sequence h items, rest)
      | .flowMapping :: rest =>
        let (entries, rest) ← takeFlowEntries handles true fuel rest
        return (.mapping h entries, rest)
      | .blockEntry :: _ =>
        if indentless then
          let (items, rest) ← takeIndentless handles fuel rest
          return (.sequence h items, rest)
        else if h = .none then throw .unexpectedToken
        else return (.scalar h "" .plain, rest)
      | .blockSequence :: more =>
        if block then
          let (items, rest) ← takeBlockItems handles fuel more
          return (.sequence h items, rest)
        else if h = .none then throw .unexpectedToken
        else return (.scalar h "" .plain, rest)
      | .blockMapping :: more =>
        if block then
          let (entries, rest) ← takeBlockEntries handles fuel more
          return (.mapping h entries, rest)
        else if h = .none then throw .unexpectedToken
        else return (.scalar h "" .plain, rest)
      | _ =>
        if h = .none then throw .unexpectedToken
        else return (.scalar h "" .plain, rest)

/-- The entries of a block sequence to its end. -/
def takeBlockItems (handles : Handles) : Nat → List Token → Except Fault (List Node × List Token)
  | 0, _ => .error .unexpectedToken
  | fuel + 1, ts =>
    match ts with
    | .blockEnd :: rest => .ok ([], rest)
    | .blockEntry :: rest => do
      let (item, rest) ← if missingEntry rest then pure (missing, rest)
        else take handles true false fuel rest
      let (items, rest) ← takeBlockItems handles fuel rest
      return (item :: items, rest)
    | _ => .error .unexpectedToken

/-- The entries of a sequence without an indentation of its own, as far as they go. -/
def takeIndentless (handles : Handles) : Nat → List Token → Except Fault (List Node × List Token)
  | 0, _ => .error .unexpectedToken
  | fuel + 1, ts =>
    match ts with
    | .blockEntry :: rest => do
      let (item, rest) ← if missingEntry rest || missingInBlock rest then pure (missing, rest)
        else take handles true false fuel rest
      let (items, rest) ← takeIndentless handles fuel rest
      return (item :: items, rest)
    | _ => .ok ([], ts)

/-- The entries of a block mapping to its end. -/
def takeBlockEntries (handles : Handles) :
    Nat → List Token → Except Fault (List (Node × Node) × List Token)
  | 0, _ => .error .unexpectedToken
  | fuel + 1, ts =>
    match ts with
    | .blockEnd :: rest => .ok ([], rest)
    | .key :: rest => do
      let (k, rest) ← if missingInBlock rest then pure (missing, rest)
        else take handles true true fuel rest
      let (v, rest) ← match rest with
        | .value :: rest =>
          if missingInBlock rest then pure (missing, rest) else take handles true true fuel rest
        | _ => pure (missing, rest)
      let (entries, rest) ← takeBlockEntries handles fuel rest
      return ((k, v) :: entries, rest)
    | _ => .error .unexpectedToken

/-- The items between square brackets to the closing one; a single entry of a mapping may stand as
an item. -/
def takeFlowItems (handles : Handles) (first : Bool) :
    Nat → List Token → Except Fault (List Node × List Token)
  | 0, _ => .error .unexpectedToken
  | fuel + 1, ts => do
    let ts ← takeSeparator first .flowSequenceEnd ts
    match ts with
    | .flowSequenceEnd :: rest => return ([], rest)
    | .key :: rest =>
      let (k, rest) ← match rest with
        | .value :: rest => pure (missing, rest)
        | _ =>
          if missingInFlow .flowSequenceEnd rest then pure (missing, rest.drop 1)
          else take handles false false fuel rest
      let (v, rest) ← match rest with
        | .value :: rest =>
          if missingInFlow .flowSequenceEnd rest then pure (missing, rest)
          else take handles false false fuel rest
        | _ => pure (missing, rest)
      let (items, rest) ← takeFlowItems handles false fuel rest
      return (.mapping .none [(k, v)] :: items, rest)
    | _ =>
      let (item, rest) ← take handles false false fuel ts
      let (items, rest) ← takeFlowItems handles false fuel rest
      return (item :: items, rest)

/-- The entries between braces to the closing one. -/
def takeFlowEntries (handles : Handles) (first : Bool) :
    Nat → List Token → Except Fault (List (Node × Node) × List Token)
  | 0, _ => .error .unexpectedToken
  | fuel + 1, ts => do
    let ts ← takeSeparator first .flowMappingEnd ts
    match ts with
    | .flowMappingEnd :: rest => return ([], rest)
    | .key :: rest =>
      let (k, rest) ← match rest with
        | .value :: _ => pure (missing, rest)
        | _ =>
          if missingInFlow .flowMappingEnd rest then pure (missing, rest)
          else take handles false false fuel rest
      let (v, rest) ← match rest with
        | .value :: rest =>
          if missingInFlow .flowMappingEnd rest then pure (missing, rest)
          else take handles false false fuel rest
        | _ => pure (missing, rest)
      let (entries, rest) ← takeFlowEntries handles false fuel rest
      return ((k, v) :: entries, rest)
    | _ =>
      let (k, rest) ← take handles false false fuel ts
      let (entries, rest) ← takeFlowEntries handles false fuel rest
      return ((k, missing) :: entries, rest)

end

/-- The directives before a document: at most one version, and each handle once. -/
def takeDirectives (version : Bool) (handles : Handles) :
    List Token → Except Fault (Bool × Handles × List Token)
  | .version major minor :: rest =>
    if version || major ≠ 1 || (minor ≠ 1 && minor ≠ 2) then .error .badDirective
    else takeDirectives true handles rest
  | .handle name start :: rest =>
    if (handles.lookup name).isSome then .error .badDirective
    else takeDirectives version (handles ++ [(name, start)]) rest
  | rest => .ok (version, handles, rest)

/-- The root of the document whose content begins here. -/
def takeRoot (handles : Handles) (fuel : Nat) (ts : List Token) :
    Except Fault (Node × List Token) :=
  match ts with
  | .version .. :: _ => .ok (missing, ts)
  | .handle .. :: _ => .ok (missing, ts)
  | .documentStart :: _ => .ok (missing, ts)
  | .documentEnd :: _ => .ok (missing, ts)
  | .streamEnd :: _ => .ok (missing, ts)
  | _ => take handles true false fuel ts

/-- The root, if nothing but markers follows its document. -/
def onlyRoot (r : Node × List Token) : Except Fault (Option Node) :=
  if r.2.dropWhile (· = .documentEnd) = [.streamEnd] then .ok (some r.1)
  else .error .severalDocuments

/-- The root of the only document of a text, if the text has one. Directives ask for a marker at
the beginning of the document. -/
def ofTokens (ts : List Token) : Except Fault (Option Node) := do
  let fuel := 2 * ts.length + 2
  let (version, declared, rest) ← takeDirectives false [] ts
  let handles := declared ++ defaultHandles
  let bare := !version && declared.isEmpty
  match rest with
  | .documentStart :: rest => onlyRoot (← takeRoot handles fuel rest)
  | .streamEnd :: _ => if bare then return none else throw .badDirective
  | _ => if bare then onlyRoot (← take handles true false fuel rest) else throw .badDirective

end Node

/-! ## Aliases -/

/-- A node in which every alias is the number of an anchor. -/
inductive Tree where
  | scalar (tag : Option String) (text : String) (style : Style)
  | sequence (tag : Option String) (items : List Tree)
  | mapping (tag : Option String) (entries : List (Tree × Tree))
  | alias (anchor : Nat)
  deriving Inhabited

/-- A document: its root, what its anchors name, and a measure of its size. -/
structure Document where
  root : Option Tree
  /-- The trees of the anchor numbers; the last entry for a number counts. -/
  anchors : List (Nat × Tree)
  /-- One for each scalar and alias, two for each sequence and mapping. -/
  size : Nat
  deriving Inhabited

/-- What has been seen of a document: the anchor names and their numbers, the trees they name
in the order in which they begin, and the size. -/
structure Seen where
  names : List (String × Nat)
  anchors : List (Nat × Tree)
  size : Nat

namespace Seen

/-- Give a name its number. A new name gets the number of names before it; so does a name that is
used again, which may then share its number with a later one. -/
def declare (s : Seen) : Option String → Seen × Option Nat
  | none => (s, none)
  | some name =>
    let id := s.names.length
    ({ s with names := (name, id) :: s.names.filter (·.1 ≠ name) }, some id)

/-- Set the tree of a number, before the trees of the anchors that begin inside it. -/
def record (s : Seen) (id : Option Nat) (before : Nat) (t : Tree) : Seen :=
  match id with
  | none => s
  | some n => { s with anchors := s.anchors.take before ++ (n, t) :: s.anchors.drop before }

def count (s : Seen) (n : Nat) : Seen := { s with size := s.size + n }

end Seen

/-- The tree of a node, whose aliases have to repeat what begins before them. -/
def Tree.ofNode (s : Seen) : Node → Except Fault (Tree × Seen)
  | .alias name =>
    match s.names.lookup name with
    | none => .error .unknownAnchor
    | some id => .ok (.alias id, s.count 1)
  | .scalar h text style =>
    let (s', id) := s.declare h.anchor
    let t := Tree.scalar h.tag text style
    .ok (t, (s'.record id s.anchors.length t).count 1)
  | .sequence h items => do
    -- the name is declared before the items, so that an item may repeat what contains it
    let (s', id) := s.declare h.anchor
    let (items, s') ← ofItems s' items
    let t := Tree.sequence h.tag items
    return (t, (s'.record id s.anchors.length t).count 2)
  | .mapping h entries => do
    let (s', id) := s.declare h.anchor
    let (entries, s') ← ofEntries s' entries
    let t := Tree.mapping h.tag entries
    return (t, (s'.record id s.anchors.length t).count 2)
where
  /-- The trees of the items of a sequence. -/
  ofItems (s : Seen) : List Node → Except Fault (List Tree × Seen)
    | [] => .ok ([], s)
    | n :: rest => do
      let (t, s) ← Tree.ofNode s n
      let (ts, s) ← ofItems s rest
      return (t :: ts, s)
  /-- The trees of the entries of a mapping. -/
  ofEntries (s : Seen) : List (Node × Node) → Except Fault (List (Tree × Tree) × Seen)
    | [] => .ok ([], s)
    | (k, v) :: rest => do
      let (k, s) ← Tree.ofNode s k
      let (v, s) ← Tree.ofNode s v
      let (ts, s) ← ofEntries s rest
      return ((k, v) :: ts, s)

def Document.ofNode : Option Node → Except Fault Document
  | none => .ok ⟨none, [], 1⟩
  | some n => do
    let (t, s) ← Tree.ofNode ⟨[], [], 0⟩ n
    return ⟨some t, s.anchors, s.size⟩

def document (s : String) : Except Fault Document := do
  Document.ofNode (← Node.ofTokens (← tokens s))

end ArchSpec.Yaml
