import Conform.Unicode.Category
import Conform.Unicode.Property

/-!
# Escaped texts

A text shown between quotes so that every character of it can be seen: quotes,
backslashes, invisible characters and marks that would join the quote before
them are escaped.
-/

namespace Conform

namespace Text

/-- Whether a character shows on its own. -/
def isVisible (c : Char) : Bool :=
  if c.toNat < 127 then 32 ≤ c.toNat
  else
    !Unicode.Property.holds Unicode.Property.graphemeExtend c &&
      match Unicode.Category.ofChar c with
      | .control | .format | .surrogate | .privateUse | .unassigned
      | .lineSeparator | .paragraphSeparator | .space => false
      | _ => true

/-- A character as it stands in an escaped text. -/
def escapedChar (c : Char) : List Char :=
  if c = '"' then ['\\', '"']
  else if c = '\\' then ['\\', '\\']
  else if c = '\n' then ['\\', 'n']
  else if c = '\r' then ['\\', 'r']
  else if c = '\t' then ['\\', 't']
  else if c.toNat = 0 then ['\\', '0']
  else if isVisible c then [c]
  else ['\\', 'u', '\x7b'] ++ Nat.toDigits 16 c.toNat ++ ['\x7d']

/-- A text between quotes, invisible characters escaped. -/
def escaped (s : String) : String :=
  String.ofList ('"' :: (s.toList.flatMap escapedChar ++ ['"']))

end Text

end Conform
