import ArchSpec.Yaml.Fault

/-!
# Tokens of a YAML text

The characters of a text with their places, the tokens it falls into, and the readers of the
tokens that are more than an indicator: anchors, tags, directives, and texts in their five styles.

All line breaks but the two separators of Unicode are read as line feeds (`unifyBreaks`), so a
break is always one character below.

* `Gap` — blanks and breaks between two words of a text, and what they are folded to.
* `readPlain`, `readQuoted`, `readBlock` — the texts without quotes, in quotes, and in blocks.
-/

namespace ArchSpec.Yaml

/-! ## Characters -/

/-- How a text is written. -/
inductive Style where
  | plain
  | single
  | double
  | literal
  | folded
  deriving DecidableEq, Repr, Inhabited

/-- A token. -/
inductive Token where
  | streamEnd
  | version (major minor : Nat)
  | handle (name start : String)
  | documentStart
  | documentEnd
  | blockSequence
  | blockMapping
  | blockEnd
  | flowSequence
  | flowSequenceEnd
  | flowMapping
  | flowMappingEnd
  | blockEntry
  | flowEntry
  | key
  | value
  | alias (name : String)
  | anchor (name : String)
  | tag (handle suffix : String)
  | scalar (text : String) (style : Style)
  deriving DecidableEq, Repr, Inhabited

/-- A place in a text: characters before it, lines before it, characters before it on its line. -/
structure Mark where
  index : Nat
  line : Nat
  column : Nat
  deriving DecidableEq, Repr, Inhabited

/-- The place after a character of the same line. -/
def Mark.next (m : Mark) : Mark := ⟨m.index + 1, m.line, m.column + 1⟩

/-- The place some characters further on the same line. -/
def Mark.skip (m : Mark) (n : Nat) : Mark := ⟨m.index + n, m.line, m.column + n⟩

def Mark.nextLine (m : Mark) : Mark := ⟨m.index + 1, m.line + 1, 0⟩

/-- Whether `c` may stand in a text at all. -/
def isAllowed (c : Char) : Bool :=
  let n := c.toNat
  n == 0x09 || n == 0x0A || n == 0x0D || (0x20 ≤ n && n ≤ 0x7E) || n == 0x85 ||
    (0xA0 ≤ n && n ≤ 0xD7FF) || (0xE000 ≤ n && n ≤ 0xFFFD && n != 0xFEFF) || 0x10000 ≤ n

/-- Write every line break but the two separators as a line feed. -/
def unifyBreaks : List Char → List Char
  | [] => []
  | '\r' :: '\n' :: rest => '\n' :: unifyBreaks rest
  | c :: rest => (if c = '\r' ∨ c = '\u0085' then '\n' else c) :: unifyBreaks rest

def isBreak (c : Char) : Bool := c = '\n' || c = '\u2028' || c = '\u2029'

/-- Whether `c` is a blank within a line. -/
def isBlank (c : Char) : Bool := c = ' ' || c = '\t'

/-- Whether the text is over or goes on with a blank or a break. -/
def endsWord : List Char → Bool
  | [] => true
  | c :: _ => isBlank c || isBreak c

/-- Whether `c` may stand in a name. -/
def isWordChar (c : Char) : Bool :=
  ('0' ≤ c && c ≤ '9') || ('A' ≤ c && c ≤ 'Z') || ('a' ≤ c && c ≤ 'z') || c = '_' || c = '-'

/-- Whether a document marker of the character `c` stands at the front. -/
def hasMarker (c : Char) : List Char → Bool
  | a :: b :: d :: rest => a = c && b = c && d = c && endsWord rest
  | _ => false

/-- Whether a document marker stands at the front, at the beginning of a line. -/
def atMarker (cs : List Char) (m : Mark) : Bool :=
  m.column = 0 && (hasMarker '-' cs || hasMarker '.' cs)

/-- The value of a digit of base sixteen. -/
def hexValue? (c : Char) : Option Nat :=
  if '0' ≤ c && c ≤ '9' then some (c.toNat - 48)
  else if 'a' ≤ c && c ≤ 'f' then some (c.toNat - 87)
  else if 'A' ≤ c && c ≤ 'F' then some (c.toNat - 55)
  else none

/-- The number of some digits of base sixteen. -/
def hexNumber? (cs : List Char) : Option Nat :=
  cs.foldl (fun acc c => do return (← acc) * 16 + (← hexValue? c)) (some 0)

/-- A read piece with the rest of the text and the place where that begins. -/
structure Piece (α : Type) where
  value : α
  rest : List Char
  mark : Mark

/-! ## Names, tags and directives -/

/-- The name of an anchor or alias, after its indicator. -/
def readAnchorName (cs : List Char) (m : Mark) : Except Fault (Piece String) :=
  let name := cs.takeWhile isWordChar
  let rest := cs.dropWhile isWordChar
  let ended := endsWord rest || match rest with
    | c :: _ => ['?', ':', ',', ']', '}', '%', '@', '\x60'].contains c
    | [] => true
  if name.isEmpty || !ended then .error .badAnchor
  else .ok ⟨String.ofList name, rest, m.skip name.length⟩

/-- Whether `c` may stand in a tag as itself; `verbatim` tags may hold flow indicators. -/
def isTagChar (verbatim : Bool) (c : Char) : Bool :=
  isWordChar c ||
    [';', '/', '?', ':', '@', '&', '=', '+', '$', '.', '!', '~', '*', '\'', '(', ')'].contains c ||
    (verbatim && [',', '[', ']'].contains c)

/-- How many bytes a character takes by its first byte, if that is one, and the bits it gives. -/
def firstByte? (b : Nat) : Option (Nat × Nat) :=
  if b < 0x80 then some (1, b)
  else if 0xC0 ≤ b ∧ b < 0xE0 then some (2, b - 0xC0)
  else if 0xE0 ≤ b ∧ b < 0xF0 then some (3, b - 0xE0)
  else if 0xF0 ≤ b ∧ b < 0xF8 then some (4, b - 0xF0)
  else none

/-- The characters of a tag. `more` counts the bytes that are missing of a character written by
numbers, and `bits` holds those that are there; `length` counts the characters read. -/
def readTagChars (verbatim : Bool) (more bits length : Nat) :
    List Char → Except Fault (List Char × Nat × List Char)
  | '%' :: a :: b :: rest =>
    match hexNumber? [a, b] with
    | none => .error .badTag
    | some byte =>
      if more = 0 then
        match firstByte? byte with
        | none => .error .badTag
        | some (1, bits) => (readTagChars verbatim 0 0 (length + 3) rest).map fun r =>
            (Char.ofNat bits :: r.1, r.2)
        | some (n, bits) => readTagChars verbatim (n - 1) bits (length + 3) rest
      else if byte < 0x80 ∨ 0xC0 ≤ byte then .error .badTag
      else if more = 1 then
        (readTagChars verbatim 0 0 (length + 3) rest).map fun r =>
          (Char.ofNat (bits * 64 + (byte - 0x80)) :: r.1, r.2)
      else readTagChars verbatim (more - 1) (bits * 64 + (byte - 0x80)) (length + 3) rest
  | c :: rest =>
    if more ≠ 0 ∨ c = '%' then .error .badTag
    else if isTagChar verbatim c then
      (readTagChars verbatim 0 0 (length + 1) rest).map fun r => (c :: r.1, r.2)
    else .ok ([], length, c :: rest)
  | [] => if more ≠ 0 then .error .badTag else .ok ([], length, [])

/-- The characters of a tag, which may be missing only after a `!`. -/
def readTagText (verbatim mayBeEmpty : Bool) (cs : List Char) (m : Mark) :
    Except Fault (Piece String) := do
  let (chars, length, rest) ← readTagChars verbatim 0 0 0 cs
  if length = 0 && !mayBeEmpty then throw .badTag
  return ⟨String.ofList chars, rest, m.skip length⟩

/-- A `!` with the name after it and a closing `!`, if there is one. -/
def readHandle (cs : List Char) : List Char × List Char :=
  match cs with
  | '!' :: rest =>
    let name := rest.takeWhile isWordChar
    match rest.dropWhile isWordChar with
    | '!' :: rest => ('!' :: (name ++ ['!']), rest)
    | rest => ('!' :: name, rest)
  | _ => ([], cs)

/-- Handle and suffix of a tag, at its `!`. -/
def readTagParts (cs : List Char) (m : Mark) : Except Fault (Piece (String × String)) :=
  match cs with
  | '!' :: '<' :: rest => do
    let p ← readTagText true false rest (m.skip 2)
    match p.rest with
    | '>' :: rest => return ⟨("", p.value), rest, p.mark.next⟩
    | _ => throw .badTag
  | _ => do
    let (handle, rest) := readHandle cs
    if handle.length > 1 && handle.getLast? = some '!' then
      let p ← readTagText false false rest (m.skip handle.length)
      return ⟨(String.ofList handle, p.value), p.rest, p.mark⟩
    else
      let p ← readTagText false true (cs.drop 1) m.next
      if p.value.isEmpty then return ⟨("", "!"), p.rest, p.mark⟩
      else return ⟨("!", p.value), p.rest, p.mark⟩

/-- A tag, at its `!`; it ends a word, or stands before a comma inside brackets. -/
def readTag (inFlow : Bool) (cs : List Char) (m : Mark) : Except Fault (Piece (String × String)) :=
  do
    let p ← readTagParts cs m
    if endsWord p.rest || (inFlow && p.rest.head? = some ',') then return p
    else throw .badTag

/-- The text after the blanks at its front. -/
def skipBlanks (cs : List Char) (m : Mark) : List Char × Mark :=
  (cs.dropWhile isBlank, m.skip (cs.takeWhile isBlank).length)

/-- A number of at most nine digits. -/
def readSmallNumber (cs : List Char) (m : Mark) : Except Fault (Piece Nat) :=
  let isDigit (c : Char) : Bool := '0' ≤ c && c ≤ '9'
  let ds := cs.takeWhile isDigit
  if ds.isEmpty || ds.length > 9 then .error .badDirective
  else .ok ⟨ds.foldl (fun n c => n * 10 + (c.toNat - 48)) 0, cs.dropWhile isDigit, m.skip ds.length⟩

def readVersion (cs : List Char) (m : Mark) : Except Fault (Piece Token) := do
  let (cs, m) := skipBlanks cs m
  let major ← readSmallNumber cs m
  match major.rest with
  | '.' :: rest =>
    let minor ← readSmallNumber rest major.mark.next
    return ⟨.version major.value minor.value, minor.rest, minor.mark⟩
  | _ => throw .badDirective

/-- The value of a tag directive: a handle and what it stands for. -/
def readHandleDirective (cs : List Char) (m : Mark) : Except Fault (Piece Token) := do
  let (cs, m) := skipBlanks cs m
  let (handle, rest) := readHandle cs
  if handle.isEmpty then throw .badDirective
  if handle.getLast? ≠ some '!' then throw .badDirective
  let m := m.skip handle.length
  match rest with
  | c :: _ => if !isBlank c then throw .badDirective
  | [] => throw .badDirective
  let (cs, m) := skipBlanks rest m
  let p ← readTagText true false cs m
  if !endsWord p.rest then throw .badDirective
  return ⟨.handle (String.ofList handle) p.value, p.rest, p.mark⟩

/-- What may follow on a line: blanks, a comment, and the break that ends it. -/
def endLine (fault : Fault) (cs : List Char) (m : Mark) : Except Fault (List Char × Mark) :=
  let (cs, m) := skipBlanks cs m
  let comment := match cs with
    | '#' :: _ => cs.takeWhile (fun c => !isBreak c)
    | _ => []
  match cs.drop comment.length with
  | [] => .ok ([], m.skip comment.length)
  | c :: rest =>
    if isBreak c then .ok (rest, (m.skip comment.length).nextLine) else .error fault

/-- A directive, after its `%`, with its line. -/
def readDirective (cs : List Char) (m : Mark) : Except Fault (Piece Token) := do
  let name := cs.takeWhile isWordChar
  let rest := cs.dropWhile isWordChar
  if name.isEmpty || !endsWord rest then throw .badDirective
  let m := m.skip name.length
  let p ← if name = ['Y', 'A', 'M', 'L'] then readVersion rest m
    else if name = ['T', 'A', 'G'] then readHandleDirective rest m
    else throw .badDirective
  let (rest, m) ← endLine .badDirective p.rest p.mark
  return ⟨p.value, rest, m⟩

/-! ## Folding -/

/-- Blanks and breaks between two words of a text. -/
inductive Gap where
  /-- Blanks on one line, latest first. -/
  | blanks (cs : List Char)
  /-- Breaks, latest first, after the first one; that may be missing because it was escaped. -/
  | breaks (first : Option Char) (more : List Char)
  deriving Repr, Inhabited

namespace Gap

def none : Gap := .blanks []

/-- Whether there is neither blank nor break. -/
def isNone : Gap → Bool
  | .blanks [] => true
  | _ => false

/-- Whether a line was ended. -/
def hasBreak : Gap → Bool
  | .blanks _ => false
  | .breaks .. => true

/-- One more blank, which counts only on the line where the gap began. -/
def addBlank (c : Char) : Gap → Gap
  | .blanks cs => .blanks (c :: cs)
  | g => g

def addBreak (c : Char) : Gap → Gap
  | .blanks _ => .breaks (some c) []
  | .breaks first more => .breaks first (c :: more)

/-- What a gap is read as, latest character first: blanks as they are; one line feed as a space,
more as the line feeds after the first; a separator as itself. -/
def fold : Gap → List Char
  | .blanks cs => cs
  | .breaks (some '\n') [] => [' ']
  | .breaks (some '\n') more => more
  | .breaks (some c) more => more ++ [c]
  | .breaks Option.none more => more

end Gap

/-! ## Texts -/

/-- The character for the letter after a backslash, if it stands for one by itself. -/
def simpleEscape? (c : Char) : Option Char :=
  [('0', '\x00'), ('a', '\x07'), ('b', '\x08'), ('t', '\t'), ('\t', '\t'), ('n', '\n'),
    ('v', '\x0b'), ('f', '\x0c'), ('r', '\r'), ('e', '\x1b'), (' ', ' '), ('"', '"'), ('/', '/'),
    ('\\', '\\'), ('N', '\u0085'), ('_', '\u00a0'), ('L', '\u2028'), ('P', '\u2029')].lookup c

/-- The character with a number. -/
def charOf? (n : Nat) : Option Char :=
  if n < 0xD800 ∨ (0xDFFF < n ∧ n ≤ 0x10FFFF) then some (Char.ofNat n) else none

/-- The character of some digits of base sixteen. -/
def hexChar? (cs : List Char) : Option Char := (hexNumber? cs).bind charOf?

/-- A text in quotes, after the opening one; `out` holds what was read, latest first. -/
def readQuoted (double : Bool) (out : List Char) (gap : Gap) :
    List Char → Mark → Except Fault (Piece (List Char))
  | [], _ => .error .unterminated
  | c :: rest, m =>
    if isBlank c then readQuoted double out (gap.addBlank c) rest m.next
    else if isBreak c then readQuoted double out (gap.addBreak c) rest m.nextLine
    else if atMarker (c :: rest) m then .error .unexpectedMarker
    else
      let out := gap.fold ++ out
      if double then
        if c = '"' then .ok ⟨out.reverse, rest, m.next⟩
        else if c = '\\' then
          match rest with
          | [] => .error .badEscape
          | e :: rest =>
            if isBreak e then readQuoted double out (.breaks none []) rest m.next.nextLine
            else if e = 'x' then
              match rest with
              | a :: b :: rest => match hexChar? [a, b] with
                | some x => readQuoted double (x :: out) .none rest (m.skip 4)
                | none => .error .badEscape
              | _ => .error .badEscape
            else if e = 'u' then
              match rest with
              | a :: b :: c :: d :: rest => match hexChar? [a, b, c, d] with
                | some x => readQuoted double (x :: out) .none rest (m.skip 6)
                | none => .error .badEscape
              | _ => .error .badEscape
            else if e = 'U' then
              match rest with
              | a :: b :: c :: d :: a' :: b' :: c' :: d' :: rest =>
                match hexChar? [a, b, c, d, a', b', c', d'] with
                | some x => readQuoted double (x :: out) .none rest (m.skip 10)
                | none => .error .badEscape
              | _ => .error .badEscape
            else match simpleEscape? e with
              | some x => readQuoted double (x :: out) .none rest (m.skip 2)
              | none => .error .badEscape
        else readQuoted double (c :: out) .none rest m.next
      else if c = '\'' then
        match rest with
        | '\'' :: rest => readQuoted double ('\'' :: out) .none rest (m.skip 2)
        | rest => .ok ⟨out.reverse, rest, m.next⟩
      else readQuoted double (c :: out) .none rest m.next

/-- Whether a character ends a plain text inside brackets. -/
def isFlowIndicator (c : Char) : Bool := [',', '[', ']', '{', '}'].contains c

/-- Whether a colon is followed by what may not follow it inside brackets. -/
def colonClash : List Char → Bool
  | c :: _ => isFlowIndicator c || c = '?'
  | [] => false

/-- The end of a text without quotes, whose characters are held with the last one first. -/
def plainEnd (out : List Char) (gap : Gap) (rest : List Char) (m : Mark) :
    Piece (List Char × Bool) :=
  ⟨(out.reverse, gap.hasBreak), rest, m⟩

/-- A text without quotes; its second part tells whether a line was ended after its last word.
`indent` is the least column of its further lines outside brackets. -/
def readPlain (inFlow : Bool) (indent : Int) (out : List Char) (gap : Gap) :
    List Char → Mark → Except Fault (Piece (List Char × Bool))
  | [], m => .ok (plainEnd out gap [] m)
  | c :: rest, m =>
    if isBlank c then
      if gap.hasBreak && c = '\t' && (m.column : Int) < indent then .error .badIndentation
      else readPlain inFlow indent out (gap.addBlank c) rest m.next
    else if isBreak c then readPlain inFlow indent out (gap.addBreak c) rest m.nextLine
    else if !gap.isNone && ((!inFlow && (m.column : Int) < indent) || atMarker (c :: rest) m ||
        c = '#') then .ok (plainEnd out gap (c :: rest) m)
    else if inFlow && c = ':' && colonClash rest then .error .badFlowColon
    else if (c = ':' && endsWord rest) || (inFlow && isFlowIndicator c) then
      .ok (plainEnd out gap (c :: rest) m)
    else readPlain inFlow indent (c :: (gap.fold ++ out)) .none rest m.next

/-- How the line breaks at the end of a block are kept. -/
inductive Chomp where
  | strip
  | clip
  | keep
  deriving DecidableEq, Repr

/-- The indicators after `|` or `>`: how the end is kept and how deep the block is indented. -/
def readBlockHeader (cs : List Char) (m : Mark) : Except Fault (Piece (Chomp × Option Nat)) :=
  let chomp? (c : Char) : Option Chomp :=
    if c = '+' then some .keep else if c = '-' then some .strip else none
  let depth? (c : Char) : Option Nat := if '0' ≤ c && c ≤ '9' then some (c.toNat - 48) else none
  let checked (chomp : Chomp) (depth : Nat) (rest : List Char) (m : Mark) :
      Except Fault (Piece (Chomp × Option Nat)) :=
    if depth = 0 then .error .badBlockHeader else .ok ⟨(chomp, some depth), rest, m⟩
  match cs with
  | [] => .ok ⟨(.clip, none), [], m⟩
  | c :: rest =>
    match chomp? c with
    | some chomp =>
      match rest with
      | [] => .ok ⟨(chomp, none), [], m.next⟩
      | d :: more =>
        match depth? d with
        | some depth => checked chomp depth more (m.skip 2)
        | none => .ok ⟨(chomp, none), rest, m.next⟩
    | none =>
      match depth? c with
      | none => .ok ⟨(.clip, none), cs, m⟩
      | some depth =>
        match rest with
        | [] => checked .clip depth [] m.next
        | d :: more =>
          match chomp? d with
          | some chomp => checked chomp depth more (m.skip 2)
          | none => checked .clip depth rest m.next

/-- Indentation and empty lines before a line of a block. `limit` is the indentation if it is
known; `deepest` is the deepest column reached; `breaks` holds the breaks, latest first. -/
def readBlockBreaks (limit : Option Nat) (deepest : Nat) (breaks : List Char) :
    List Char → Mark → Except Fault (Piece (Nat × List Char))
  | [], m => .ok ⟨(max deepest m.column, breaks), [], m⟩
  | c :: rest, m =>
    let within := match limit with
      | none => true
      | some n => m.column < n
    if within && c = ' ' then readBlockBreaks limit deepest breaks rest m.next
    else if within && c = '\t' then .error .badIndentation
    else if isBreak c then
      readBlockBreaks limit (max deepest m.column) (c :: breaks) rest m.nextLine
    else .ok ⟨(max deepest m.column, breaks), c :: rest, m⟩

/-- The lines of a block. `first` is the break that ended the line before, `breaks` holds those of
the empty lines after it, latest first; `blankBefore` tells whether the line before began with a
blank. Every line takes a character, so the length of the text bounds `fuel`. -/
def readBlockLines (folded : Bool) (chomp : Chomp) (indent : Nat) :
    Nat → (out : List Char) → (first : Option Char) → (breaks : List Char) →
    (blankBefore : Bool) → List Char → Mark → Except Fault (Piece (List Char))
  | 0, _, _, _, _, _, _ => .error .unterminated
  | fuel + 1, out, first, breaks, blankBefore, cs, m =>
    if m.column = indent && !cs.isEmpty then do
      let startsBlank := (cs.head?.map isBlank).getD false
      let out := if folded && first = some '\n' && !blankBefore && !startsBlank then
          (if breaks.isEmpty then ' ' :: out else breaks ++ out)
        else breaks ++ (first.toList ++ out)
      let line := cs.takeWhile (fun c => !isBreak c)
      let out := line.reverse ++ out
      let m := m.skip line.length
      match cs.drop line.length with
      | [] =>
        readBlockLines folded chomp indent fuel out none [] startsBlank [] m
      | b :: rest =>
        let p ← readBlockBreaks (some indent) 0 [] rest m.nextLine
        readBlockLines folded chomp indent fuel out (some b) p.value.2 startsBlank p.rest p.mark
    else
      let out := if chomp = .strip then out else first.toList ++ out
      let out := if chomp = .keep then breaks ++ out else out
      .ok ⟨out.reverse, cs, m⟩

/-- A text in a block, after its `|` or `>`; `parent` is the indentation around it. -/
def readBlock (folded : Bool) (parent : Int) (cs : List Char) (m : Mark) :
    Except Fault (Piece (List Char)) := do
  let header ← readBlockHeader cs m
  let (chomp, depth) := header.value
  let (cs, m) ← endLine .badBlockHeader header.rest header.mark
  let limit := depth.map fun d => if parent ≥ 0 then parent.toNat + d else d
  let p ← readBlockBreaks limit 0 [] cs m
  let indent := limit.getD (max p.value.1 (max (parent + 1).toNat 1))
  readBlockLines folded chomp indent (p.rest.length + 2) [] none p.value.2 false p.rest p.mark

end ArchSpec.Yaml
