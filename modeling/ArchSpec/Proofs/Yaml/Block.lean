import ArchSpec.Yaml.Decode
import ArchSpec.Proofs.FileStore.Action

/-!
# Documents without anchors

A document of texts, lists and tables that names nothing and repeats nothing is a `Block`. Its
tokens in block style are read back as its tree, and the value of the tree is that of its parts, put
together.

* `Block` — such documents; `Block.tokens`, `Block.tree`, `Block.value` — how one is written, what
  it is read as, and its value.
* `Block.take_tokens`, `Block.ofNode_node`, `Block.value_tree` — the three steps of reading it.
* `Block.document_eq`, `Block.readValue_eq` — a text with the tokens of a block.
-/

namespace ArchSpec.Yaml

/-- A text as it is written. -/
structure Word where
  text : String
  style : Style

/-- A text without quotes. -/
def Word.plain (s : String) : Word := ⟨s, .plain⟩

def Word.token (w : Word) : Token := .scalar w.text w.style

/-- A document without anchors, aliases and tags. -/
inductive Block where
  | text (w : Word)
  | list (items : List Block)
  | table (fields : List (Word × Block))

namespace Block

/-! ## What a block is written as, and what it is read as -/

mutual

/-- The tokens of a block. -/
def tokens : Block → List Token
  | .text w => [w.token]
  | .list items => .blockSequence :: itemTokens items
  | .table fields => .blockMapping :: fieldTokens fields

/-- The tokens of items, with the end of their list. -/
def itemTokens : List Block → List Token
  | [] => [.blockEnd]
  | b :: rest => .blockEntry :: (tokens b ++ itemTokens rest)

/-- The tokens of fields, with the end of their table. -/
def fieldTokens : List (Word × Block) → List Token
  | [] => [.blockEnd]
  | (w, b) :: rest => .key :: w.token :: .value :: (tokens b ++ fieldTokens rest)

end

mutual

def node : Block → Node
  | .text w => .scalar .none w.text w.style
  | .list items => .sequence .none (itemNodes items)
  | .table fields => .mapping .none (fieldNodes fields)

def itemNodes : List Block → List Node
  | [] => []
  | b :: rest => node b :: itemNodes rest

def fieldNodes : List (Word × Block) → List (Node × Node)
  | [] => []
  | (w, b) :: rest => (.scalar .none w.text w.style, node b) :: fieldNodes rest

end

mutual

def tree : Block → Tree
  | .text w => .scalar none w.text w.style
  | .list items => .sequence none (itemTrees items)
  | .table fields => .mapping none (fieldTrees fields)

def itemTrees : List Block → List Tree
  | [] => []
  | b :: rest => tree b :: itemTrees rest

def fieldTrees : List (Word × Block) → List (Tree × Tree)
  | [] => []
  | (w, b) :: rest => (.scalar none w.text w.style, tree b) :: fieldTrees rest

end

/-! ## Nodes -/

variable {handles : Node.Handles} {fuel : Nat}

/-- A block is not left out. -/
theorem not_missing (b : Block) (rest : List Token) :
    Node.missingInBlock (b.tokens ++ rest) = false ∧
      Node.missingEntry (b.tokens ++ rest) = false := by
  cases b <;> exact ⟨rfl, rfl⟩

theorem take_word (w : Word) (indentless : Bool) (hfuel : 0 < fuel) (rest : List Token) :
    Node.take handles true indentless fuel (w.token :: rest) =
      .ok (.scalar .none w.text w.style, rest) := by
  obtain ⟨fuel, rfl⟩ := Nat.exists_eq_succ_of_ne_zero (Nat.ne_of_gt hfuel)
  rfl

mutual

/-- **The tokens of a block are read as its node**, whatever follows. -/
theorem take_tokens (indentless : Bool) (rest : List Token) : ∀ (b : Block) (fuel : Nat),
    b.tokens.length ≤ fuel →
      Node.take handles true indentless fuel (b.tokens ++ rest) = .ok (b.node, rest)
  | .text w, fuel, hfuel => take_word w indentless hfuel rest
  | .list items, 0, hfuel => by simp [tokens] at hfuel
  | .list items, fuel + 1, hfuel => by
    have hitems := take_itemTokens rest items fuel (Nat.le_of_succ_le_succ hfuel)
    change (Node.takeBlockItems handles fuel (itemTokens items ++ rest) >>= _) = _
    rw [hitems]
    rfl
  | .table fields, 0, hfuel => by simp [tokens] at hfuel
  | .table fields, fuel + 1, hfuel => by
    have hfields := take_fieldTokens rest fields fuel (Nat.le_of_succ_le_succ hfuel)
    change (Node.takeBlockEntries handles fuel (fieldTokens fields ++ rest) >>= _) = _
    rw [hfields]
    rfl

theorem take_itemTokens (rest : List Token) : ∀ (items : List Block) (fuel : Nat),
    (itemTokens items).length ≤ fuel →
      Node.takeBlockItems handles fuel (itemTokens items ++ rest) = .ok (itemNodes items, rest)
  | [], 0, hfuel => by simp [itemTokens] at hfuel
  | [], fuel + 1, hfuel => rfl
  | b :: items, 0, hfuel => by simp [itemTokens] at hfuel
  | b :: items, fuel + 1, hfuel => by
    rw [itemTokens, List.length_cons, List.length_append] at hfuel
    have hitem := take_tokens false (itemTokens items ++ rest) b fuel (by omega)
    have hitems := take_itemTokens rest items fuel (by omega)
    rw [itemTokens, List.cons_append, List.append_assoc, Node.takeBlockItems]
    simp [(not_missing b _).2, hitem, hitems, itemNodes, bind, Except.bind, pure, Except.pure]

theorem take_fieldTokens (rest : List Token) : ∀ (fields : List (Word × Block)) (fuel : Nat),
    (fieldTokens fields).length ≤ fuel →
      Node.takeBlockEntries handles fuel (fieldTokens fields ++ rest) =
        .ok (fieldNodes fields, rest)
  | [], 0, hfuel => by simp [fieldTokens] at hfuel
  | [], fuel + 1, hfuel => rfl
  | (w, b) :: fields, 0, hfuel => by simp [fieldTokens] at hfuel
  | (w, b) :: fields, fuel + 1, hfuel => by
    simp only [fieldTokens, List.length_cons, List.length_append] at hfuel
    have hkey : ∀ ts, Node.take handles true true fuel (w.token :: ts) =
        .ok (.scalar .none w.text w.style, ts) := take_word w true (by omega)
    have hfield := take_tokens true (fieldTokens fields ++ rest) b fuel (by omega)
    have hfields := take_fieldTokens rest fields fuel (by omega)
    rw [fieldTokens]
    simp only [List.cons_append, List.append_assoc]
    have hword : ∀ ts, Node.missingInBlock (w.token :: ts) = false := fun _ => rfl
    rw [Node.takeBlockEntries]
    simp [hword, (not_missing b _).1, hkey, hfield, hfields, fieldNodes, bind, Except.bind, pure,
      Except.pure]

end

/-! ## Trees -/

/-- The names that are known, and what they stand for, stay as they are. -/
theorem ofNode_word (s : Seen) (w : Word) :
    Tree.ofNode s (.scalar .none w.text w.style) =
      .ok (.scalar none w.text w.style, s.count 1) := rfl

mutual

/-- **The node of a block is read as its tree**, which takes no notice of what has been named. -/
theorem ofNode_node (s : Seen) : ∀ b : Block, ∃ n, Tree.ofNode s b.node = .ok (b.tree, s.count n)
  | .text w => ⟨1, rfl⟩
  | .list items => by
    obtain ⟨n, hitems⟩ := ofItems_itemNodes s items
    refine ⟨n + 2, ?_⟩
    change (Tree.ofNode.ofItems s (itemNodes items) >>= _) = _
    rw [hitems]
    rfl
  | .table fields => by
    obtain ⟨n, hfields⟩ := ofEntries_fieldNodes s fields
    refine ⟨n + 2, ?_⟩
    change (Tree.ofNode.ofEntries s (fieldNodes fields) >>= _) = _
    rw [hfields]
    rfl

theorem ofItems_itemNodes (s : Seen) : ∀ items : List Block,
    ∃ n, Tree.ofNode.ofItems s (itemNodes items) = .ok (itemTrees items, s.count n)
  | [] => ⟨0, rfl⟩
  | b :: items => by
    obtain ⟨n, hitem⟩ := ofNode_node s b
    obtain ⟨k, hitems⟩ := ofItems_itemNodes (s.count n) items
    refine ⟨n + k, ?_⟩
    rw [itemNodes, Tree.ofNode.ofItems, hitem]
    simp only [bind, Except.bind, hitems]
    simp [itemTrees, Seen.count, Nat.add_assoc, pure, Except.pure]

theorem ofEntries_fieldNodes (s : Seen) : ∀ fields : List (Word × Block),
    ∃ n, Tree.ofNode.ofEntries s (fieldNodes fields) = .ok (fieldTrees fields, s.count n)
  | [] => ⟨0, rfl⟩
  | (w, b) :: fields => by
    obtain ⟨n, hfield⟩ := ofNode_node (s.count 1) b
    obtain ⟨k, hfields⟩ := ofEntries_fieldNodes ((s.count 1).count n) fields
    refine ⟨1 + n + k, ?_⟩
    rw [fieldNodes, Tree.ofNode.ofEntries, ofNode_word]
    simp only [bind, Except.bind, hfield, hfields]
    simp [fieldTrees, Seen.count, Nat.add_assoc, pure, Except.pure]

end

/-! ## Documents -/

/-- **A text with the tokens of a block** is the document of its tree. -/
theorem document_eq {text : String} {b : Block}
    (h : Yaml.tokens text = .ok (b.tokens ++ [.streamEnd])) :
    ∃ n, document text = .ok ⟨some b.tree, [], n⟩ := by
  obtain ⟨n, htree⟩ := ofNode_node ⟨[], [], 0⟩ b
  refine ⟨n, ?_⟩
  have htake : Node.take Node.defaultHandles true false
      (2 * (b.tokens ++ [Token.streamEnd]).length + 2) (b.tokens ++ [.streamEnd]) =
        .ok (b.node, [.streamEnd]) := take_tokens false [.streamEnd] b _ (by simp; omega)
  have hbare : Node.ofTokens (b.tokens ++ [.streamEnd]) =
      (Node.take Node.defaultHandles true false (2 * (b.tokens ++ [Token.streamEnd]).length + 2)
        (b.tokens ++ [.streamEnd]) >>= Node.onlyRoot) := by
    cases b <;> rfl
  have hnode : Node.ofTokens (b.tokens ++ [.streamEnd]) = .ok (some b.node) := by
    rw [hbare, htake]
    rfl
  rw [document, h]
  simp only [bind, Except.bind, hnode, Document.ofNode, htree]
  simp [Seen.count, pure, Except.pure]

/-! ## Values -/

mutual

/-- How many lists and tables of a block are inside of each other. -/
def height : Block → Nat
  | .text _ => 0
  | .list items => itemsHeight items + 1
  | .table fields => fieldsHeight fields + 1

def itemsHeight : List Block → Nat
  | [] => 0
  | b :: rest => max (height b) (itemsHeight rest)

def fieldsHeight : List (Word × Block) → Nat
  | [] => 0
  | (_, b) :: rest => max (height b) (fieldsHeight rest)

end

mutual

/-- The value of a block. -/
def value : Block → Except Fault Value
  | .text w => scalarValue none w.text w.style
  | .list items => do return .list (← itemValues items)
  | .table fields => do return .ofFields (← fieldValues fields)

def itemValues : List Block → Except Fault (List Value)
  | [] => .ok []
  | b :: rest => do return (← value b) :: (← itemValues rest)

def fieldValues : List (Word × Block) → Except Fault (List (String × Value))
  | [] => .ok []
  | (w, b) :: rest => do return (w.text, ← value b) :: (← fieldValues rest)

end

variable {d : Document}

theorem follow_tree (b : Block) : d.follow b.tree = (pure b.tree : Decoder Tree) := by
  cases b <;> rfl

mutual

/-- **The value of the tree of a block** is put together from those of its parts. -/
theorem value_tree : ∀ (b : Block) (depth : Nat), b.height ≤ depth →
    d.value depth b.tree = (liftM b.value : Decoder Value)
  | .text w, depth, _ => by
    rw [Document.value, follow_tree, pure_bind]
    rfl
  | .list items, 0, h => by simp [height] at h
  | .list items, depth + 1, h => by
    rw [Document.value, follow_tree, pure_bind]
    have hitems := mapM_itemTrees items depth (Nat.le_of_succ_le_succ h)
    change ((itemTrees items).mapM _ >>= _) = _
    rw [hitems, value]
    simp
  | .table fields, 0, h => by simp [height] at h
  | .table fields, depth + 1, h => by
    rw [Document.value, follow_tree, pure_bind]
    have hfields := mapM_fieldTrees fields depth (Nat.le_of_succ_le_succ h)
    change ((fieldTrees fields).mapM _ >>= _) = _
    rw [hfields, value]
    simp

theorem mapM_itemTrees : ∀ (items : List Block) (depth : Nat), itemsHeight items ≤ depth →
    (itemTrees items).mapM (d.value depth) = (liftM (itemValues items) : Decoder _)
  | [], depth, _ => rfl
  | b :: items, depth, h => by
    rw [itemsHeight, Nat.max_le] at h
    rw [itemTrees, List.mapM_cons, value_tree b depth h.1, mapM_itemTrees items depth h.2,
      itemValues]
    simp

theorem mapM_fieldTrees : ∀ (fields : List (Word × Block)) (depth : Nat),
    fieldsHeight fields ≤ depth →
      ((fieldTrees fields).mapM fun e => do
        let key ← d.text e.1
        return (key, ← d.value depth e.2)) = (liftM (fieldValues fields) : Decoder _)
  | [], depth, _ => rfl
  | (w, b) :: fields, depth, h => by
    rw [fieldsHeight, Nat.max_le] at h
    have hkey : d.text (.scalar none w.text w.style) = (pure w.text : Decoder String) := rfl
    rw [fieldTrees, List.mapM_cons, value_tree b depth h.1, mapM_fieldTrees fields depth h.2,
      fieldValues, hkey]
    simp

end

/-- **The value of a text with the tokens of a block** is that of the block. -/
theorem readValue_eq {text : String} {b : Block} (hheight : b.height ≤ maxDepth)
    (h : Yaml.tokens text = .ok (b.tokens ++ [.streamEnd])) : readValue text = b.value := by
  obtain ⟨n, hdocument⟩ := document_eq h
  rw [readValue, hdocument]
  change (Document.value _ maxDepth b.tree).run' 0 = _
  rw [value_tree b maxDepth hheight]
  cases b.value <;> rfl

end Block

end ArchSpec.Yaml
