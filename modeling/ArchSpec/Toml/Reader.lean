import ArchSpec.Text.Basic

/-!
# Reading TOML

The part of TOML that a flat configuration file of texts and truth values is written in: one
`key = value` a line, with comments, and with keys and texts quoted in all the ways there are.
Tables, dotted keys and other values are refused.

* `Toml.read` — the entries of a text, in order.
-/

namespace ArchSpec.Toml

/-- A value of a configuration file. -/
inductive Scalar where
  | text (s : String)
  | flag (b : Bool)
  deriving DecidableEq, Repr

/-- Why a text is not accepted. -/
inductive Fault where
  | badKey
  | missingEquals
  | badValue
  | badEscape
  | badCharacter
  | unterminated
  | trailing
  | duplicateKey
  | unknownKey
  | wrongType
  deriving DecidableEq, Repr

namespace Fault

def message : Fault → String
  | badKey => "the TOML text has a malformed key"
  | missingEquals => "the TOML text has a key without a value"
  | badValue => "the TOML text has a value that is no text and no truth value"
  | badEscape => "the TOML text has a malformed escape"
  | badCharacter => "the TOML text has a character that is not allowed"
  | unterminated => "the TOML text ends inside a quoted text"
  | trailing => "the TOML text has more on a line than a key and a value"
  | duplicateKey => "the TOML text has a key twice"
  | unknownKey => "the TOML text has an unknown key"
  | wrongType => "the TOML text has a value of the wrong type"

def all : List Fault :=
  [badKey, missingEquals, badValue, badEscape, badCharacter, unterminated, trailing, duplicateKey,
    unknownKey, wrongType]

end Fault

/-! ## Characters -/

/-- Whether `c` is a blank inside a line. -/
def isSpace (c : Char) : Bool := c = ' ' || c = '\t'

/-- Whether `c` may stand in a key without quotes. -/
def isKeyChar (c : Char) : Bool :=
  ('a' ≤ c && c ≤ 'z') || ('A' ≤ c && c ≤ 'Z') || ('0' ≤ c && c ≤ '9') || c = '_' || c = '-'

/-- Whether `c` may stand in a comment or a quoted text; tabs may, other control characters may
not. -/
def isPrintable (c : Char) : Bool := c = '\t' || (' ' ≤ c && c ≠ '\x7f')

/-- Text without the blanks at its front. -/
def dropSpace (cs : List Char) : List Char := cs.dropWhile isSpace

/-- The text after a line break, if the text begins with one. -/
def lineBreak? : List Char → Option (List Char)
  | '\n' :: rest => some rest
  | '\r' :: '\n' :: rest => some rest
  | _ => none

/-! ## Quoted texts -/

/-- The character of a number of digits in base sixteen, and the text after them. -/
def codePoint? (digits : Nat) (cs : List Char) : Option (Char × List Char) :=
  let written := cs.take digits
  if written.length < digits then none
  else match Text.number? 16 written with
    | none => none
    | some n => if n.isValidChar then some (Char.ofNat n, cs.drop digits) else none

/-- The character of an escape, given the text after its backslash, and the text after it. -/
def escape? : List Char → Option (Char × List Char)
  | 'b' :: rest => some ('\x08', rest)
  | 't' :: rest => some ('\t', rest)
  | 'n' :: rest => some ('\n', rest)
  | 'f' :: rest => some ('\x0c', rest)
  | 'r' :: rest => some ('\r', rest)
  | 'e' :: rest => some ('\x1b', rest)
  | '"' :: rest => some ('"', rest)
  | '\\' :: rest => some ('\\', rest)
  | 'x' :: rest => codePoint? 2 rest
  | 'u' :: rest => codePoint? 4 rest
  | 'U' :: rest => codePoint? 8 rest
  | _ => none

/-- How a quoted text is written. -/
structure Style where
  quote : Char
  /-- Whether backslashes begin escapes. -/
  escapes : Bool
  /-- Whether the text may go over lines; then three quotes end it. -/
  long : Bool

/-- The text after a backslash at the end of a line and all the blanks and line breaks behind it.
-/
def joinedLine? (cs : List Char) : Option (List Char) :=
  (lineBreak? (dropSpace cs)).map fun rest =>
    rest.dropWhile fun c => isSpace c || c = '\n' || c = '\r'

/-- The end of a long text at a run of quotes: up to two more than three belong to the text. -/
def longEnd? (quote : Char) (cs : List Char) : Option (List Char × List Char) :=
  let run := cs.takeWhile (· = quote)
  if 3 ≤ run.length then
    let inside := min (run.length - 3) 2
    some (List.replicate inside quote, cs.drop (inside + 3))
  else none

/-- The rest of a quoted text from a place inside it on, and the text after it. `fuel` bounds the
number of characters. -/
def quotedRest (s : Style) : Nat → List Char → Except Fault (List Char × List Char)
  | 0, _ => .error .unterminated
  | _, [] => .error .unterminated
  | fuel + 1, c :: rest =>
    if c = s.quote then
      if s.long then
        match longEnd? s.quote (c :: rest) with
        | some done => .ok done
        | none => (quotedRest s fuel rest).map fun r => (c :: r.1, r.2)
      else .ok ([], rest)
    else if s.escapes && c = '\\' then
      match if s.long then joinedLine? rest else none with
      | some rest => quotedRest s fuel rest
      | none =>
        match escape? rest with
        | none => .error .badEscape
        | some (e, rest) => (quotedRest s fuel rest).map fun r => (e :: r.1, r.2)
    else
      match lineBreak? (c :: rest) with
      | some after =>
        if s.long then
          (quotedRest s fuel after).map fun r =>
            ((c :: rest).take (rest.length + 1 - after.length) ++ r.1, r.2)
        else .error .badCharacter
      | none =>
        if isPrintable c then (quotedRest s fuel rest).map fun r => (c :: r.1, r.2)
        else .error .badCharacter

/-- A quoted text of a style, given the text after its first quotes. A long text does not begin
with a line break. -/
def quotedText (s : Style) (cs : List Char) : Except Fault (List Char × List Char) :=
  let body := if s.long then (lineBreak? cs).getD cs else cs
  quotedRest s (body.length + 1) body

/-! ## Entries -/

/-- A key, and the text after it. -/
def key : List Char → Except Fault (String × List Char)
  | '"' :: rest => (quotedText ⟨'"', true, false⟩ rest).map fun r => (String.ofList r.1, r.2)
  | '\'' :: rest => (quotedText ⟨'\'', false, false⟩ rest).map fun r => (String.ofList r.1, r.2)
  | cs =>
    let bare := cs.takeWhile isKeyChar
    if bare.isEmpty then .error .badKey
    else .ok (String.ofList bare, cs.dropWhile isKeyChar)

def textValue (r : List Char × List Char) : Scalar × List Char := (.text (String.ofList r.1), r.2)

/-- A value, and the text after it. -/
def value : List Char → Except Fault (Scalar × List Char)
  | '"' :: '"' :: '"' :: rest => (quotedText ⟨'"', true, true⟩ rest).map textValue
  | '"' :: rest => (quotedText ⟨'"', true, false⟩ rest).map textValue
  | '\'' :: '\'' :: '\'' :: rest => (quotedText ⟨'\'', false, true⟩ rest).map textValue
  | '\'' :: rest => (quotedText ⟨'\'', false, false⟩ rest).map textValue
  | cs =>
    let bare := cs.takeWhile isKeyChar
    if bare = "true".toList then .ok (.flag true, cs.dropWhile isKeyChar)
    else if bare = "false".toList then .ok (.flag false, cs.dropWhile isKeyChar)
    else .error .badValue

/-- The text after what may follow on a line: blanks, a comment, and the line break. -/
def lineRest (cs : List Char) : Except Fault (List Char) :=
  let cs := dropSpace cs
  let after := match cs with
    | '#' :: rest => rest.dropWhile isPrintable
    | cs => cs
  match after with
  | [] => .ok []
  | c :: rest =>
    match lineBreak? (c :: rest) with
    | some after => .ok after
    | none => .error .trailing

/-- An entry, and the text after its line. -/
def entry (cs : List Char) : Except Fault ((String × Scalar) × List Char) := do
  let (k, rest) ← key cs
  match dropSpace rest with
  | '=' :: rest =>
    let (v, rest) ← value (dropSpace rest)
    return ((k, v), ← lineRest rest)
  | _ => throw .missingEquals

/-- The entries of a text. `fuel` bounds the number of lines. -/
def entries : Nat → List Char → Except Fault (List (String × Scalar))
  | 0, _ => .ok []
  | fuel + 1, cs =>
    match dropSpace cs with
    | [] => .ok []
    | c :: rest =>
      if c = '#' || (lineBreak? (c :: rest)).isSome then do
        entries fuel (← lineRest (c :: rest))
      else do
        let (e, rest) ← entry (c :: rest)
        return e :: (← entries fuel rest)

def hasDuplicate : List (String × Scalar) → Bool
  | [] => false
  | e :: rest => rest.any (·.1 = e.1) || hasDuplicate rest

/-- The entries of a text, in order; a mark of byte order at its front does not count. -/
def read (s : String) : Except Fault (List (String × Scalar)) := do
  let cs := match s.toList with
    | '\ufeff' :: rest => rest
    | cs => cs
  let found ← entries (cs.length + 1) cs
  if hasDuplicate found then throw .duplicateKey
  return found

end ArchSpec.Toml
