import Conform.Text.Utf8
import Conform.Unicode.Category
import Conform.Url.Direction

/-!
# Domain names

Which texts are domain names in a URL. Compatibility variants of ASCII and
ignorable characters are mapped first; then each label may hold the characters
an internationalized name admits, no label may hold one that separates the
parts of a URL, and the labels keep to their writing directions.

Of the Unicode mapping of internationalized names only what decides about ASCII
and full stops is carried out. Other compatibility variants are neither mapped
nor composed, and a character is admitted by its general category instead of
its entry in the mapping table, so that rare characters may be judged otherwise.
-/

namespace Conform

namespace Domain

/-- ASCII characters that no domain name holds. -/
def isForbiddenAscii (c : Char) : Bool :=
  c.toNat ≤ 0x20 || c.toNat = 0x7F || "#/:<>?@[\\]^|%".toList.contains c

/-- Characters that map to nothing. -/
def isIgnored (c : Char) : Bool :=
  let n := c.toNat
  n == 0xAD || n == 0x34F || (0x180B ≤ n && n ≤ 0x180D) || n == 0x180F || n == 0x200B ||
    n == 0x2060 || n == 0x2064 || (0xFE00 ≤ n && n ≤ 0xFE0F) || n == 0xFEFF ||
    (0x1BCA0 ≤ n && n ≤ 0x1BCA3) || (0x1D173 ≤ n && n ≤ 0x1D17A) ||
    (0xE0100 ≤ n && n ≤ 0xE01EF)

/-- Characters whose mapping would hold a forbidden one or a full stop. -/
def mapsToForbidden (c : Char) : Bool :=
  [(0xA0, 0xA0), (0xA8, 0xA8), (0xAF, 0xAF), (0xB4, 0xB4), (0xB8, 0xB8), (0x2D8, 0x2DD),
    (0x37A, 0x37A), (0x384, 0x385), (0x1FBD, 0x1FBD), (0x1FBF, 0x1FC1), (0x1FCD, 0x1FCF),
    (0x1FDD, 0x1FDF), (0x1FED, 0x1FEE), (0x1FFD, 0x1FFE), (0x2000, 0x200A), (0x2017, 0x2017),
    (0x2024, 0x2026), (0x202F, 0x202F), (0x203E, 0x203E), (0x2047, 0x2049), (0x205F, 0x205F),
    (0x2100, 0x2101), (0x2105, 0x2106), (0x2488, 0x249B), (0x2A74, 0x2A74), (0x3000, 0x3000),
    (0x309B, 0x309C), (0x33C2, 0x33C2), (0x33C7, 0x33C7), (0x33D8, 0x33D8), (0xFC5E, 0xFC63),
    (0xFDFA, 0xFDFB), (0xFE12, 0xFE13), (0xFE16, 0xFE16), (0xFE19, 0xFE19), (0xFE30, 0xFE30),
    (0xFE47, 0xFE4C), (0xFE52, 0xFE52), (0xFE55, 0xFE56),
    (0xFE5F, 0xFE5F), (0xFE64, 0xFE65), (0xFE68, 0xFE68), (0xFE6A, 0xFE6B), (0xFE70, 0xFE70),
    (0xFE72, 0xFE72), (0xFE74, 0xFE74), (0xFE76, 0xFE76), (0xFE78, 0xFE78), (0xFE7A, 0xFE7A),
    (0xFE7C, 0xFE7C), (0xFE7E, 0xFE7E), (0xFFE3, 0xFFE3), (0x1F100, 0x1F100)].any fun (low, high) =>
      low ≤ c.toNat && c.toNat ≤ high

/--
Full-width ASCII, ideographic full stops and mathematical Hebrew letters in
their plain form, letters in lower case.
-/
def mapChar (c : Char) : Char :=
  let n := c.toNat
  if 0xFF01 ≤ n && n ≤ 0xFF5E then (Char.ofNat (n - 0xFEE0)).toLower
  else if 0x2135 ≤ n && n ≤ 0x2138 then Char.ofNat (n - 0x2135 + 0x5D0)
  else if n = 0x3002 || n = 0xFF61 then '.'
  else c.toLower

/-- Whether a mapped character may stand in a label. -/
def isAdmitted (c : Char) : Bool :=
  if c.toNat < 128 then !isForbiddenAscii c
  else if mapsToForbidden c || c.toNat = 0xFFFC || c.toNat = 0xFFFD then false
  else
    match Unicode.Category.ofChar c with
    | .control | .format | .surrogate | .privateUse | .unassigned
    | .space | .lineSeparator | .paragraphSeparator => false
    | _ => true

def isMark (c : Char) : Bool :=
  c.toNat ≥ 128 &&
    match Unicode.Category.ofChar c with
    | .nonspacingMark | .spacingMark | .enclosingMark => true
    | _ => false

/-- Characters that strip a consonant of its vowel; only behind them may a joiner stand. -/
def isVirama (c : Char) : Bool :=
  [0x94D, 0x9CD, 0xA4D, 0xACD, 0xB4D, 0xBCD, 0xC4D, 0xCCD, 0xD3B, 0xD3C, 0xD4D, 0xDCA, 0xE3A,
    0xEBA, 0xF84, 0x1039, 0x103A, 0x1714, 0x1715, 0x1734, 0x17D2, 0x1A60, 0x1B44, 0x1BAA, 0x1BAB,
    0x1BF2, 0x1BF3, 0x2D7F, 0xA806, 0xA82C, 0xA8C4, 0xA953, 0xA9C0, 0xAAF6, 0xABED, 0x10A3F,
    0x11046, 0x11070, 0x1107F, 0x110B9, 0x11133, 0x11134, 0x111C0, 0x11235, 0x112EA, 0x1134D,
    0x11442, 0x114C2, 0x115BF, 0x1163F, 0x116B6, 0x1172B, 0x11839, 0x1193D, 0x1193E, 0x119E0,
    0x11A34, 0x11A47, 0x11A99, 0x11C3F, 0x11D44, 0x11D45, 0x11D97].contains c.toNat

def isJoiner (c : Char) : Bool := c.toNat = 0x200C || c.toNat = 0x200D

/-- Whether every joiner stands behind a virama, given whether one comes before the text. -/
def joinersFit (afterVirama : Bool) : List Char → Bool
  | [] => true
  | c :: rest => (!isJoiner c || afterVirama) && joinersFit (isVirama c) rest

/-- Whether characters outside ASCII make up a label. -/
def isLabel (cs : List Char) : Bool :=
  (cs.all fun c => isAdmitted c || isJoiner c) && joinersFit false cs &&
    match cs with
    | c :: _ => !isMark c
    | [] => true

/-- The digit a character stands for in an encoded label. -/
def digit? (c : Char) : Option Nat :=
  if 'a' ≤ c && c ≤ 'z' then some (c.toNat - 'a'.toNat)
  else if c.isDigit then some (c.toNat - '0'.toNat + 26)
  else none

/-- The bias for the next number, from the distance just decoded. -/
def adapt (delta points : Nat) (isFirst : Bool) : Nat :=
  let delta := if isFirst then delta / 700 else delta / 2
  shrink 64 (delta + delta / points) 0
where
  shrink : Nat → Nat → Nat → Nat
    | 0, _, k => k
    | fuel + 1, delta, k =>
      if 455 < delta then shrink fuel (delta / 35) (k + 36)
      else k + 36 * delta / (delta + 38)

/-- One number of variable length, added to an index; the rest of the digits. -/
def readNumber? (bias : Nat) : List Char → Nat → Nat → Nat → Option (Nat × List Char)
  | [], _, _, _ => none
  | c :: rest, index, weight, k => do
    let digit ← digit? c
    let index := index + digit * weight
    let threshold := if k ≤ bias then 1 else if bias + 26 ≤ k then 26 else k - bias
    if digit < threshold then some (index, rest)
    else readNumber? bias rest index (weight * (36 - threshold)) (k + 36)

/-- Insert the characters that the digits write. -/
def insertAll? : Nat → List Char → List Nat → Nat → Nat → Nat → Option (List Nat)
  | _, [], output, _, _, _ => some output
  | 0, _ :: _, _, _, _, _ => none
  | fuel + 1, digits, output, point, index, bias => do
    let (next, rest) ← readNumber? bias digits index 1 36
    let length := output.length + 1
    let point := point + next / length
    let place := next % length
    if 0x110000 ≤ point then none
    else
      insertAll? fuel rest (output.take place ++ point :: output.drop place) point (place + 1)
        (adapt (next - index) length (index == 0))

/-- The characters of a label encoded in ASCII, its marker dropped. -/
def decodeLabel? (cs : List Char) : Option (List Char) := do
  let reversed := cs.reverse
  let tail := (reversed.takeWhile (· != '-')).reverse
  let basic := (reversed.dropWhile (· != '-')).reverse.dropLast
  let points ← insertAll? (tail.length + 1) tail (basic.map Char.toNat) 128 0 72
  if points.all fun n => n < 0xD800 || 0xE000 ≤ n then some (points.map Char.ofNat) else none

/-- A mapped label, decoded if it is marked as encoded, provided that it is valid. -/
def readLabel? (cs : List Char) : Option (List Char) :=
  match cs with
  | 'x' :: 'n' :: '-' :: '-' :: encoded => do
    let decoded ← decodeLabel? encoded
    if cs.all (fun c => c.toNat < 128 && isAdmitted c) && decoded.any (fun c => 128 ≤ c.toNat) &&
        isLabel decoded && decoded.all fun c => mapChar c == c && !isIgnored c &&
          Unicode.Category.ofChar c != .upperLetter
    then some decoded
    else none
  | _ => if isLabel cs then some cs else none

/-- The labels of a text, split at full stops. -/
def labels (cs : List Char) : List (List Char) :=
  match cs with
  | [] => [[]]
  | c :: rest =>
    if c = '.' then [] :: labels rest
    else
      match labels rest with
      | first :: more => (c :: first) :: more
      | [] => [[c]]

/-- The mapped form of a domain name, if the text is one. -/
def normalize? (cs : List Char) : Option (List Char) := do
  let mapped := (cs.filter fun c => !isIgnored c).map mapChar
  let decoded ← (labels mapped).mapM readLabel?
  if keepDirection decoded then some mapped else none

end Domain

end Conform
