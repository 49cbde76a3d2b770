import ArchSpec.Pipeline.Stages

/-!
# What commands print

* `Output` — the text that a command has printed, and whether it succeeded.
-/

namespace ArchSpec

/-- The result of a command. -/
structure Output where
  /-- What it has printed. -/
  text : String
  outcome : Except Failure Unit

namespace Output

/-- A command that stops without having printed anything. -/
def failed (e : Failure) : Output := ⟨"", .error e⟩

/-- A command that succeeds. -/
def printed (text : String) : Output := ⟨text, .ok ()⟩

def line (s : String) : String := s ++ "\n"

def block (ls : List String) : String := String.join (ls.map line)

/-- The mark of success. -/
def success : String := "✓ "

end Output

end ArchSpec
