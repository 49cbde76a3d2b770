import ArchSpec.Yaml.Token

/-!
# From characters to tokens

Indentation and one-line keys are not written as tokens of their own: a block begins where a deeper
column begins and ends where a shallower one does, and a text turns out to be a key when a colon
follows it on the same line. `Lexer` keeps what is needed to see both: the open indentations, and
for each open bracket the place where a key may have begun.

* `Lexer.step` — one more token, or an error.
* `tokens` — the tokens of a text.
-/

namespace ArchSpec.Yaml

/-- A place where a key may have begun. -/
structure KeyStart where
  /-- Whether a colon would make it a key. -/
  possible : Bool
  /-- Whether it has to be a key because it begins a line of a block mapping. -/
  required : Bool
  /-- The number of tokens before it. -/
  token : Nat
  mark : Mark
  deriving Repr, Inhabited

def KeyStart.none : KeyStart := ⟨false, false, 0, ⟨0, 0, 0⟩⟩

/-- The state between two tokens. -/
structure Lexer where
  rest : List Char
  mark : Mark
  /-- The tokens so far, latest first. -/
  tokens : List Token
  count : Nat
  /-- The column of the innermost open block, before the first one `-1`. -/
  indent : Int
  /-- The columns of the blocks around it. -/
  outer : List Int
  keyAllowed : Bool
  /-- Where a key may have begun inside the innermost bracket. -/
  keyStart : KeyStart
  /-- The same for the brackets around it. -/
  outerKeys : List KeyStart
  done : Bool
  deriving Repr

namespace Lexer

def start (cs : List Char) : Lexer :=
  ⟨cs, ⟨0, 0, 0⟩, [], 0, -1, [], true, .none, [], false⟩

/-- Whether a bracket is open. -/
def inFlow (s : Lexer) : Bool := !s.outerKeys.isEmpty

def push (s : Lexer) (t : Token) : Lexer := { s with tokens := t :: s.tokens, count := s.count + 1 }

/-- One more token, before which stand only `n` of the tokens so far. -/
def insertAt (s : Lexer) (n : Nat) (t : Token) : Lexer :=
  let later := s.count - n
  { s with tokens := s.tokens.take later ++ t :: s.tokens.drop later, count := s.count + 1 }

/-- Pass over some characters of the line. -/
def advance (s : Lexer) (n : Nat) : Lexer :=
  { s with rest := s.rest.drop n, mark := s.mark.skip n }

/-- Go on after a read piece. -/
def after {α : Type} (s : Lexer) (p : Piece α) : Lexer := { s with rest := p.rest, mark := p.mark }

/-! ## Blanks and comments -/

/-- The next place that is neither blank nor comment. A line end outside brackets allows a key. -/
def skipToToken (inFlow comment allowed : Bool) : List Char → Mark → List Char × Mark × Bool
  | [], m => ([], m, allowed)
  | c :: rest, m =>
    if isBreak c then skipToToken inFlow false (!inFlow || allowed) rest m.nextLine
    else if comment then skipToToken inFlow true allowed rest m.next
    else if c = ' ' || (c = '\t' && (inFlow || !allowed)) then
      skipToToken inFlow false allowed rest m.next
    else if c = '#' then skipToToken inFlow true allowed rest m.next
    else (c :: rest, m, allowed)

/-! ## Indentation -/

/-- End the blocks that are deeper than a column. -/
def closeBlocks (column : Int) (s : Lexer) : List Int → Lexer
  | [] => s
  | o :: outer =>
    if s.indent > column then closeBlocks column { s.push .blockEnd with indent := o, outer } outer
    else s

/-- End the blocks that are deeper than a column, outside brackets. -/
def unroll (s : Lexer) (column : Int) : Lexer :=
  if s.inFlow then s else closeBlocks column s s.outer

/-- Begin a block at a column deeper than the one around it, outside brackets; its token goes
before token `at?`, or to the end. -/
def roll (s : Lexer) (column : Nat) (at? : Option Nat) (t : Token) : Lexer :=
  if s.inFlow || s.indent ≥ column then s
  else
    let s := { s with outer := s.indent :: s.outer, indent := column }
    match at? with
    | none => s.push t
    | some n => s.insertAt n t

/-! ## Keys -/

/-- The longest key, in characters. -/
def maxKey : Nat := 1024

/-- A key start that is still one at a later place; one that had to be a key is an error. -/
def KeyStart.atPlace (m : Mark) (k : KeyStart) : Except Fault KeyStart :=
  if k.possible && (k.mark.line < m.line || k.mark.index + maxKey < m.index) then
    if k.required then .error .missingColon else .ok { k with possible := false }
  else .ok k

/-- Give up the key starts that lie too far back. -/
def dropStale (s : Lexer) : Except Fault Lexer := do
  let outerKeys ← s.outerKeys.mapM (KeyStart.atPlace s.mark)
  let keyStart ← KeyStart.atPlace s.mark s.keyStart
  return { s with keyStart, outerKeys }

/-- Give up the key start inside the innermost bracket. -/
def dropKey (s : Lexer) : Except Fault Lexer :=
  if s.keyStart.possible && s.keyStart.required then .error .missingColon
  else .ok { s with keyStart := { s.keyStart with possible := false } }

/-- A key may begin here. -/
def saveKey (s : Lexer) : Except Fault Lexer := do
  if !s.keyAllowed then return s
  let required := !s.inFlow && s.indent = s.mark.column
  let s ← s.dropKey
  return { s with keyStart := ⟨true, required, s.count, s.mark⟩ }

/-! ## Tokens -/

def takeEnd (s : Lexer) : Except Fault Lexer := do
  let s ← (s.unroll (-1)).dropKey
  return { s.push .streamEnd with keyAllowed := false, done := true }

def takeDirective (s : Lexer) : Except Fault Lexer := do
  let s ← (s.unroll (-1)).dropKey
  let p ← readDirective (s.rest.drop 1) s.mark.next
  return { (s.after p).push p.value with keyAllowed := false }

def takeMarker (s : Lexer) (t : Token) : Except Fault Lexer := do
  let s ← (s.unroll (-1)).dropKey
  return { (s.advance 3).push t with keyAllowed := false }

def takeOpen (s : Lexer) (t : Token) : Except Fault Lexer := do
  let s ← s.saveKey
  return { (s.advance 1).push t with
    outerKeys := s.keyStart :: s.outerKeys, keyStart := .none, keyAllowed := true }

def takeClose (s : Lexer) (t : Token) : Except Fault Lexer := do
  let s ← s.dropKey
  let s := match s.outerKeys with
    | [] => s
    | k :: ks => { s with keyStart := k, outerKeys := ks }
  return { (s.advance 1).push t with keyAllowed := false }

/-- A comma inside brackets. -/
def takeComma (s : Lexer) : Except Fault Lexer := do
  let s ← s.dropKey
  return { (s.advance 1).push .flowEntry with keyAllowed := true }

/-- The dash of a list entry. -/
def takeEntry (s : Lexer) : Except Fault Lexer := do
  if !s.inFlow && !s.keyAllowed then throw .misplacedEntry
  let s ← (s.roll s.mark.column none .blockSequence).dropKey
  return { (s.advance 1).push .blockEntry with keyAllowed := true }

/-- The question mark of a key. -/
def takeKey (s : Lexer) : Except Fault Lexer := do
  if !s.inFlow && !s.keyAllowed then throw .misplacedKey
  let s ← (s.roll s.mark.column none .blockMapping).dropKey
  return { (s.advance 1).push .key with keyAllowed := !s.inFlow }

/-- The colon of a value. What began at the key start turns out to be its key. -/
def takeValue (s : Lexer) : Except Fault Lexer := do
  let k := s.keyStart
  if k.possible then
    -- both tokens go before what has been read since then
    let s := (s.insertAt k.token .key).roll k.mark.column (some k.token) .blockMapping
    return { (s.advance 1).push .value with
      keyStart := { k with possible := false }, keyAllowed := false }
  else
    if !s.inFlow && !s.keyAllowed then throw .misplacedValue
    let s := s.roll s.mark.column none .blockMapping
    return { (s.advance 1).push .value with keyAllowed := !s.inFlow }

def takeAnchor (s : Lexer) (t : String → Token) : Except Fault Lexer := do
  let s ← s.saveKey
  let p ← readAnchorName (s.rest.drop 1) s.mark.next
  return { (s.after p).push (t p.value) with keyAllowed := false }

def takeTag (s : Lexer) : Except Fault Lexer := do
  let s ← s.saveKey
  let p ← readTag s.inFlow s.rest s.mark
  return { (s.after p).push (.tag p.value.1 p.value.2) with keyAllowed := false }

/-- A text in a block. -/
def takeBlock (s : Lexer) (style : Style) : Except Fault Lexer := do
  let s ← s.dropKey
  let p ← readBlock (style = .folded) s.indent (s.rest.drop 1) s.mark.next
  return { (s.after p).push (.scalar (String.ofList p.value) style) with keyAllowed := true }

def takeQuoted (s : Lexer) (style : Style) : Except Fault Lexer := do
  let s ← s.saveKey
  let p ← readQuoted (style = .double) [] .none (s.rest.drop 1) s.mark.next
  return { (s.after p).push (.scalar (String.ofList p.value) style) with keyAllowed := false }

/-- A text without quotes. -/
def takePlain (s : Lexer) : Except Fault Lexer := do
  let s ← s.saveKey
  let p ← readPlain s.inFlow (s.indent + 1) [] .none s.rest s.mark
  return { (s.after p).push (.scalar (String.ofList p.value.1) .plain) with
    keyAllowed := p.value.2 }

/-- Whether a text without quotes may begin with `c`, before the characters `rest`. -/
def startsPlain (inFlow : Bool) (c : Char) (rest : List Char) : Bool :=
  let indicators := ['-', '?', ':', ',', '[', ']', '{', '}', '#', '&', '*', '!', '|', '>', '\'',
    '"', '%', '@', '\x60']
  let blankNext := match rest with
    | d :: _ => isBlank d
    | [] => false
  !(isBlank c || indicators.contains c) || (c = '-' && !blankNext) ||
    (!inFlow && (c = '?' || c = ':') && !endsWord rest)

/-- The token at the front of a text that is not over. -/
def takeToken (s : Lexer) (c : Char) (rest : List Char) : Except Fault Lexer :=
  if s.mark.column = 0 && c = '%' then s.takeDirective
  else if s.mark.column = 0 && hasMarker '-' (c :: rest) then s.takeMarker .documentStart
  else if s.mark.column = 0 && hasMarker '.' (c :: rest) then s.takeMarker .documentEnd
  else if c = '[' then s.takeOpen .flowSequence
  else if c = '{' then s.takeOpen .flowMapping
  else if c = ']' then s.takeClose .flowSequenceEnd
  else if c = '}' then s.takeClose .flowMappingEnd
  else if c = ',' then s.takeComma
  else if c = '-' && endsWord rest then s.takeEntry
  else if c = '?' && (s.inFlow || endsWord rest) then s.takeKey
  else if c = ':' && (s.inFlow || endsWord rest) then s.takeValue
  else if c = '*' then s.takeAnchor .alias
  else if c = '&' then s.takeAnchor .anchor
  else if c = '!' then s.takeTag
  else if c = '|' && !s.inFlow then s.takeBlock .literal
  else if c = '>' && !s.inFlow then s.takeBlock .folded
  else if c = '\'' then s.takeQuoted .single
  else if c = '"' then s.takeQuoted .double
  else if startsPlain s.inFlow c rest then s.takePlain
  else .error .badIndicator

/-- One more token, with the block ends before it. -/
def step (s : Lexer) : Except Fault Lexer := do
  let (rest, mark, keyAllowed) := skipToToken s.inFlow false s.keyAllowed s.rest s.mark
  let s ← { s with rest, mark, keyAllowed }.dropStale
  let s := s.unroll s.mark.column
  match s.rest with
  | [] => s.takeEnd
  | c :: rest => s.takeToken c rest

/-- Steps to the end of the text. Each takes a character, so its length bounds `fuel`. -/
def run : Nat → Lexer → Except Fault (List Token)
  | 0, _ => .error .unexpectedToken
  | fuel + 1, s => do
    let s ← s.step
    if s.done then return s.tokens.reverse else run fuel s

end Lexer

def tokens (s : String) : Except Fault (List Token) :=
  if s.toList.all isAllowed then
    let cs := unifyBreaks s.toList
    Lexer.run (cs.length + 2) (Lexer.start cs)
  else .error .badCharacter

end ArchSpec.Yaml
