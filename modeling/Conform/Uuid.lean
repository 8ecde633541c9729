import Conform.Text.Digit

/-!
# UUIDs

A UUID is 32 hexadecimal digits. It is written with hyphens, in one run, with
hyphens between braces, or with hyphens behind `urn:uuid:`.
-/

namespace Conform

/-- A UUID by its digits in lower case. -/
structure Uuid where
  digits : List Char
  deriving DecidableEq, Repr

namespace Uuid

/-- The UUID of a run of digits. -/
def ofDigits? (cs : List Char) : Option Uuid :=
  if cs.length = 32 && cs.all Text.isHexDigit then some ⟨cs.map Char.toLower⟩ else none

/-- The places of the hyphens. -/
def hyphenPlaces : List Nat := [8, 13, 18, 23]

/-- The UUID of digits with hyphens between their groups. -/
def ofHyphenated? (cs : List Char) : Option Uuid :=
  if cs.length = 36 && hyphenPlaces.all (fun i => cs[i]? == some '-') then
    ofDigits? (cs.take 8 ++ (cs.drop 9).take 4 ++ (cs.drop 14).take 4 ++ (cs.drop 19).take 4 ++
      cs.drop 24)
  else none

/-- The UUID that characters write. -/
def readChars? (cs : List Char) : Option Uuid :=
  if cs.length = 32 then ofDigits? cs
  else if cs.length = 38 && cs.head? = some '\x7b' && cs.getLast? = some '\x7d' then
    ofHyphenated? (cs.drop 1).dropLast
  else if cs.length = 45 && (cs.take 9).map Char.toLower = "urn:uuid:".toList then
    ofHyphenated? (cs.drop 9)
  else ofHyphenated? cs

def read? (s : String) : Option Uuid := readChars? s.toList

/-- The digits in groups of 8, 4, 4, 4 and 12. -/
def text (u : Uuid) : String :=
  let d := u.digits
  String.ofList (d.take 8 ++ '-' :: (d.drop 8).take 4 ++ '-' :: (d.drop 12).take 4 ++ '-' ::
    (d.drop 16).take 4 ++ '-' :: d.drop 20)

/-- The digits in one run. -/
def plainText (u : Uuid) : String := String.ofList u.digits

end Uuid

end Conform
