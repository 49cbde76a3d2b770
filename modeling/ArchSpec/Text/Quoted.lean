import ArchSpec.Text.Hidden

/-!
# Quoted text

How a message shows a text whose extent matters: in double quotes, with the quote, the backslash
and the usual control characters by a backslash, and every other character that has no visible
form of its own by its number.
-/

namespace ArchSpec.Text

/-- A number in lower-case hexadecimal digits. -/
def hexDigits (n : Nat) : String := String.ofList (Nat.toDigits 16 n)

/-- One character inside a quoted text. -/
def quoteChar (c : Char) : String :=
  if c = '"' then "\\\""
  else if c = '\\' then "\\\\"
  else if c = '\n' then "\\n"
  else if c = '\r' then "\\r"
  else if c = '\t' then "\\t"
  else if c = '\x00' then "\\0"
  else if ' ' ≤ c && c ≤ '~' then c.toString
  else if isHidden c then "\\u\x7b" ++ hexDigits c.toNat ++ "\x7d"
  else c.toString

def quoted (s : String) : String := "\"" ++ String.join (s.toList.map quoteChar) ++ "\""

end ArchSpec.Text
