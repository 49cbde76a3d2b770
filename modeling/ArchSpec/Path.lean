import ArchSpec.Text.Basic

/-!
# Paths

A path is its text, with `/` between names. What the text means is its list of steps: empty names
and all dots but a leading one say nothing.

* `Path.steps` — the steps of a path.
* `Path.join`, `Path.parent?`, `Path.fileName?`, `Path.withFileName` — paths made from paths.
* `Path.normalize` — a path without dots, where two dots cancel the step before them.
* `Path.isWithin` — whether the steps of one path begin with those of another.
-/

namespace ArchSpec

abbrev Path := String

/-- What one part of a path says. -/
inductive Step where
  /-- Start at the root. -/
  | root
  /-- Stay. -/
  | here
  /-- Go up. -/
  | up
  /-- Go down to a name. -/
  | name (n : String)
  deriving DecidableEq, Repr

def Step.text : Step → String
  | .root => "/"
  | .here => "."
  | .up => ".."
  | .name n => n

namespace Path

/-- Whether a path starts at the root. -/
def isAbsolute (p : Path) : Bool := p.toList.head? = some '/'

/-- The step of a name between separators, if it says anything. -/
def stepOf? (piece : List Char) : Option Step :=
  if piece = [] ∨ piece = ['.'] then none
  else if piece = ['.', '.'] then some .up
  else some (.name (String.ofList piece))

/-- The steps of the names between separators; only a leading dot is a step. -/
def stepsOfPieces : List (List Char) → List Step
  | ['.'] :: rest => .here :: rest.filterMap stepOf?
  | pieces => pieces.filterMap stepOf?

def steps (p : Path) : List Step :=
  match p.toList with
  | '/' :: rest => .root :: (Text.splitOn '/' rest).filterMap stepOf?
  | cs => stepsOfPieces (Text.splitOn '/' cs)

/-- Put a path below another; a path that starts at the root stands by itself. -/
def join (base p : Path) : Path :=
  if isAbsolute p then p
  else if base.isEmpty || base.toList.getLast? = some '/' then base ++ p
  else base ++ "/" ++ p

/-- The path of a list of steps. -/
def ofSteps (steps : List Step) : Path := steps.foldl (fun acc s => join acc s.text) ""

/-- Pieces from the end of a path on, without those that say nothing. The dot that begins a path
says something. -/
def dropSilent : List (List Char) → List (List Char)
  | [['.']] => [['.']]
  | piece :: rest => if piece = [] ∨ piece = ['.'] then dropSilent rest else piece :: rest
  | [] => []

/-- The pieces before the last step, from the end on. -/
def piecesBeforeLast (p : Path) : List (List Char) :=
  dropSilent ((dropSilent (Text.splitOn '/' p.toList).reverse).drop 1)

/-- The path without its last step; the root and the empty path have none. -/
def parent? (p : Path) : Option Path :=
  match p.steps.getLast? with
  | none => none
  | some .root => none
  | some _ =>
    match piecesBeforeLast p with
    | [] => some (if isAbsolute p then "/" else "")
    | pieces => some (String.ofList (Text.joinSep '/' pieces.reverse))

/-- The last name of a path, if it ends in one. -/
def fileName? (p : Path) : Option String :=
  match p.steps.getLast? with
  | some (.name n) => some n
  | _ => none

/-- The path with another last name; a path that ends in no name gets one more. -/
def withFileName (p : Path) (name : String) : Path :=
  match p.fileName? with
  | none => join p name
  | some _ => join (p.parent?.getD "") name

/-- What follows the last dot of the last name, if that dot neither begins the name nor is missing.
-/
def extension? (p : Path) : Option String :=
  match p.fileName? with
  | none => none
  | some n =>
    let after := n.toList.reverse.takeWhile (· ≠ '.')
    let before := n.toList.reverse.dropWhile (· ≠ '.')
    if before.length ≤ 1 then none else some (String.ofList after.reverse)

/-- One step of a walk that forgets dots and lets two dots undo the step before them. -/
def applyStep (walk : List Step) : Step → List Step
  | .here => walk
  | .up => walk.dropLast
  | s => walk ++ [s]

/-- The steps of a path without dots. -/
def normalSteps (p : Path) : List Step := p.steps.foldl applyStep []

/-- A path without dots. -/
def normalize (p : Path) : Path := ofSteps p.normalSteps

/-- Whether the steps of `p` begin with those of `base`. -/
def isWithin (base p : Path) : Bool := (steps base).isPrefixOf (steps p)

/-- Whether a path, taken below `base`, stays there. -/
def isSafe (base p : Path) : Bool :=
  isWithin (normalize base) (normalize (if isAbsolute p then p else join base p))

/-- Whether no beginning of a walk goes up more often than down, from a depth on. -/
def staysBelow (depth : Nat) : List Step → Bool
  | [] => true
  | .name _ :: rest => staysBelow (depth + 1) rest
  | .here :: rest => staysBelow depth rest
  | .up :: rest => match depth with
    | 0 => false
    | depth + 1 => staysBelow depth rest
  | .root :: _ => false

/-- Whether a path may name a generated file: it is relative and never leaves its base. -/
def isArtifactPath (p : Path) : Bool :=
  !isAbsolute p && p.toList.head? ≠ some '\\' && staysBelow 0 p.steps

end Path

end ArchSpec
