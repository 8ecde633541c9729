/-!
# Places

The characters of a YAML text, each with its line and column. Line ends of one
or two characters become a single `\n`, except for the two Unicode separators,
which end a line and stay what they are.
-/

namespace Conform

namespace Yaml

structure Place where
  char : Char
  line : Nat
  column : Nat
  /-- The number of characters before it. -/
  index : Nat
  deriving DecidableEq, Repr

abbrev Places := List Place

/-- Whether a character ends a line and is kept. -/
def isSeparator (c : Char) : Bool := c.toNat = 0x2028 || c.toNat = 0x2029

def isBreak (c : Char) : Bool := c = '\n' || isSeparator c

def isBlank (c : Char) : Bool := c = ' ' || c = '\t'

/-- Characters that a text may hold. -/
def isAllowed (c : Char) : Bool :=
  let n := c.toNat
  n = 0x09 || n = 0x0A || n = 0x0D || (0x20 ≤ n && n ≤ 0x7E) || n = 0x85 ||
    (0xA0 ≤ n && n ≤ 0xFFFD && n ≠ 0xFEFF) || 0x10000 ≤ n

namespace Places

def number (line column index : Nat) : List Char → Places
  | [] => []
  | '\r' :: '\n' :: rest => ⟨'\n', line, column, index⟩ :: number (line + 1) 0 (index + 2) rest
  | c :: rest =>
    if c = '\n' || c = '\r' || c.toNat = 0x85 then
      ⟨'\n', line, column, index⟩ :: number (line + 1) 0 (index + 1) rest
    else if isSeparator c then
      ⟨c, line, column, index⟩ :: number (line + 1) 0 (index + 1) rest
    else ⟨c, line, column, index⟩ :: number line (column + 1) (index + 1) rest

/-- The places of a text, a byte order mark at its start dropped; none if a character is not allowed. -/
def ofText? (text : String) : Option Places :=
  let chars := match text.toList with
    | c :: rest => if c.toNat = 0xFEFF then rest else c :: rest
    | [] => []
  if chars.all isAllowed then some (number 0 0 0 chars) else none

/-- Whether the character at some distance is the given one. -/
def hasAt (distance : Nat) (c : Char) (ps : Places) : Bool :=
  match ps[distance]? with
  | some p => p.char = c
  | none => false

/-- Whether a blank, a line end or the end of the text stands at some distance. -/
def isOpenAt (distance : Nat) (ps : Places) : Bool :=
  match ps[distance]? with
  | some p => isBlank p.char || isBreak p.char
  | none => true

/-- Whether a line starts with three of a character that stand alone. -/
def marks (c : Char) (ps : Places) : Bool :=
  match ps with
  | p :: _ => p.column = 0 && hasAt 0 c ps && hasAt 1 c ps && hasAt 2 c ps && isOpenAt 3 ps
  | [] => false

/-- Whether a line begins or ends a document. -/
def atDocumentMark (ps : Places) : Bool := marks '-' ps || marks '.' ps

/-- What follows on the next line, from the line end on. -/
def dropLine (ps : Places) : Places := ps.dropWhile fun p => !isBreak p.char

/-- The characters before the first one that fails a test, and the places from there on. -/
def span (test : Char → Bool) (ps : Places) : List Char × Places :=
  ((ps.takeWhile fun p => test p.char).map Place.char, ps.dropWhile fun p => test p.char)

end Places

end Yaml

end Conform
