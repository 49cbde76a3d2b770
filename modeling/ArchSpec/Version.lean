import ArchSpec.Text.Basic

/-!
# Semantic versions

`MAJOR.MINOR.PATCH`, then perhaps a pre-release after a hyphen and a build after a plus sign.

* `Version.isValid` — whether a text is a semantic version.
-/

namespace ArchSpec.Version

/-- The greatest number of a part: 64 bits without sign. -/
def maxPart : Nat := Nat.pow 2 64 - 1

/-- Whether `c` is one of `0` to `9`. -/
def isDigit (c : Char) : Bool := '0' ≤ c && c ≤ '9'

/-- Whether `c` may stand in an identifier. -/
def isIdentifierChar (c : Char) : Bool :=
  isDigit c || ('a' ≤ c && c ≤ 'z') || ('A' ≤ c && c ≤ 'Z') || c = '-'

/-- Whether digits have a zero before others. -/
def hasLeadingZero : List Char → Bool
  | '0' :: _ :: _ => true
  | _ => false

/-- Whether a piece is one of the three numbers. -/
def isPart (cs : List Char) : Bool :=
  !cs.isEmpty && cs.all isDigit && !hasLeadingZero cs &&
    (match Text.number? 10 cs with
      | some n => n ≤ maxPart
      | none => false)

def isIdentifier (cs : List Char) : Bool := !cs.isEmpty && cs.all isIdentifierChar

/-- Whether a piece is an identifier of a pre-release, where numbers have no leading zeros. -/
def isPreReleaseIdentifier (cs : List Char) : Bool :=
  isIdentifier cs && !(cs.all isDigit && hasLeadingZero cs)

/-- Whether `cs` is the three numbers between dots. -/
def isCore (cs : List Char) : Bool :=
  let parts := Text.splitOn '.' cs
  parts.length = 3 && parts.all isPart

/-- Whether `cs` is the part after the three numbers and before the build. -/
def isRelease (cs : List Char) : Bool :=
  match Text.cut '-' cs with
  | (core, none) => isCore core
  | (core, some pre) => isCore core && (Text.splitOn '.' pre).all isPreReleaseIdentifier

/-- Whether a text is a semantic version. -/
def isValid (s : String) : Bool :=
  match Text.cut '+' s.toList with
  | (release, none) => isRelease release
  | (release, some build) => isRelease release && (Text.splitOn '.' build).all isIdentifier

end ArchSpec.Version
