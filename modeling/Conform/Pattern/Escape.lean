import Conform.Pattern.Expr
import Conform.Text.Digit

/-!
# Flags and escapes

The flags under which a piece of a pattern is read, and the sequences that
begin with a backslash.
-/

namespace Conform

namespace Pattern

/-- The flags in force at a place of a pattern. -/
structure Flags where
  ignoreCase : Bool := false
  multiLine : Bool := false
  dotAll : Bool := false
  crlf : Bool := false
  unicode : Bool := true
  /-- Blanks and comments between the parts of a pattern are skipped. -/
  extended : Bool := false

namespace Flags

def wordSet (f : Flags) : CharSet := if f.unicode then .word else .asciiWord

/-- A set with the case variants of its members, where case is ignored. -/
def fold (f : Flags) (a : CharSet) : CharSet :=
  if f.ignoreCase then if f.unicode then .folded a else .asciiFolded a else a

/-- A set under the flags; case variants join it before it is negated. -/
def resolve (f : Flags) (a : CharSet) (negated : Bool) : CharSet :=
  if negated then .compl (f.fold a) else f.fold a

/-- Without Unicode a set may hold ASCII only. -/
def admits (f : Flags) (a : CharSet) : Bool := f.unicode || a.isAscii

end Flags

/-- Drop leading blanks and comments; a comment runs from `#` to the end of its line. -/
def dropBlank : Bool → List Char → List Char
  | _, [] => []
  | true, c :: cs => dropBlank (c != '\n') cs
  | false, c :: cs =>
    if Text.isBlank c then dropBlank false cs
    else if c = '#' then dropBlank true cs
    else c :: cs

/-- Drop leading blanks and comments under the extended flag. -/
def skip (extended : Bool) (cs : List Char) : List Char :=
  if extended then dropBlank false cs else cs

/-- The leading characters with a property, blanks between them skipped, and the rest. -/
def takeSkipping (extended : Bool) (p : Char → Bool) : Nat → List Char → List Char × List Char
  | 0, cs => ([], cs)
  | _ + 1, [] => ([], [])
  | fuel + 1, c :: cs =>
    if p c then
      let (taken, rest) := takeSkipping extended p fuel (skip extended cs)
      (c :: taken, rest)
    else ([], c :: cs)

/-- The characters before a closing brace, and what follows the brace. -/
def takeBraced? (extended : Bool) (cs : List Char) : Option (List Char × List Char) :=
  let cs := skip extended cs
  match takeSkipping extended (· != '\x7d') (cs.length + 1) cs with
  | (taken, _ :: rest) => some (taken, rest)
  | _ => none

/-- What a single element of a pattern stands for. -/
inductive Atom where
  /-- A character; `byte` if it was written as a two-digit number. -/
  | literal (c : Char) (byte : Bool)
  /-- The characters with a Unicode property, or those without it. -/
  | unicodeSet (set : CharSet) (negated : Bool)
  | set (set : CharSet)
  | look (a : Assertion)

/-- The character with a code point written in hexadecimal. -/
def charOfHex? (cs : List Char) : Option Char := do
  let n ← Text.number? 16 cs
  if n < 0xD800 || (0xE000 ≤ n && n < 0x110000) then some (Char.ofNat n) else none

/-- A character by its number: so many digits, or any number of them in braces. -/
def readHex? (extended : Bool) (digits : Nat) (cs : List Char) : Option (Atom × List Char) := do
  match skip extended cs with
  | '\x7b' :: cs =>
    let (taken, rest) ← takeBraced? extended cs
    if taken.isEmpty || !taken.all Text.isHexDigit then none
    else some (.literal (← charOfHex? taken) false, skip extended rest)
  | cs =>
    let (taken, rest) := takeSkipping extended Text.isHexDigit digits cs
    if taken.length < digits then none
    else some (.literal (← charOfHex? taken) (digits == 2), rest)

/-- The two sides of the first occurrence of a separator. -/
def cutAt (separator : List Char) : List Char → Option (List Char × List Char)
  | [] => none
  | c :: cs =>
    if separator.isPrefixOf (c :: cs) then some ([], (c :: cs).drop separator.length)
    else (cutAt separator cs).map fun (before, after) => (c :: before, after)

/-- The class of a property, by one letter or by a name or equation in braces. -/
def readProperty? (extended negated : Bool) (cs : List Char) : Option (Atom × List Char) := do
  let result (set : Option CharSet) (negated : Bool) (rest : List Char) :
      Option (Atom × List Char) :=
    set.map fun s => (.unicodeSet s negated, rest)
  match skip extended cs with
  | '\x7b' :: cs =>
    let (name, rest) ← takeBraced? extended cs
    match cutAt ['!', '='] name with
    | some (property, value) => result (CharSet.ofValue? property value) (!negated) rest
    | none =>
      match (cutAt [':'] name).or (cutAt ['='] name) with
      | some (property, value) => result (CharSet.ofValue? property value) negated rest
      | none => result (CharSet.ofName? name) negated rest
  | '\\' :: _ => none
  | c :: rest => result (CharSet.ofName? [c]) negated (skip extended rest)
  | [] => none

/-- A word boundary, of a special kind if a word in braces follows. -/
def readBoundary? (f : Flags) (cs : List Char) : Option (Atom × List Char) :=
  let plain := some (Atom.look (.wordBoundary f.wordSet), cs)
  let isWordChar (c : Char) : Bool := c.isAlpha || c == '-'
  match cs with
  | '\x7b' :: inner =>
    match skip f.extended inner with
    | [] => none
    | first :: rest =>
      if !isWordChar first then plain
      else
        match takeSkipping f.extended isWordChar (rest.length + 1) (first :: rest) with
        | (word, '\x7d' :: rest) =>
          match String.ofList word with
          | "start" => some (.look (.wordStart f.wordSet), rest)
          | "end" => some (.look (.wordEnd f.wordSet), rest)
          | "start-half" => some (.look (.wordStartHalf f.wordSet), rest)
          | "end-half" => some (.look (.wordEndHalf f.wordSet), rest)
          | _ => none
        | _ => none
  | _ => plain

/-- What follows a backslash. -/
def readEscape? (f : Flags) : List Char → Option (Atom × List Char)
  | [] => none
  | c :: cs =>
    let literal (n : Nat) : Option (Atom × List Char) := some (.literal (Char.ofNat n) false, cs)
    let set (plain ascii : CharSet) (negated : Bool) : Option (Atom × List Char) :=
      let s := if f.unicode then plain else ascii
      some (.set (if negated then .compl s else s), cs)
    match c with
    | 'x' => readHex? f.extended 2 cs
    | 'u' => readHex? f.extended 4 cs
    | 'U' => readHex? f.extended 8 cs
    | 'p' => readProperty? f.extended false cs
    | 'P' => readProperty? f.extended true cs
    | 'd' => set .digit .asciiDigit false
    | 'D' => set .digit .asciiDigit true
    | 's' => set .blank .asciiBlank false
    | 'S' => set .blank .asciiBlank true
    | 'w' => set .word .asciiWord false
    | 'W' => set .word .asciiWord true
    | 'a' => literal 7
    | 'f' => literal 12
    | 't' => literal 9
    | 'n' => literal 10
    | 'r' => literal 13
    | 'v' => literal 11
    | 'A' => some (.look .textStart, cs)
    | 'z' => some (.look .textEnd, cs)
    | 'b' => readBoundary? f cs
    | 'B' => some (.look (.noWordBoundary f.wordSet), cs)
    | '<' => some (.look (.wordStart f.wordSet), cs)
    | '>' => some (.look (.wordEnd f.wordSet), cs)
    | c => if c.toNat < 128 && !c.isAlphanum then some (.literal c false, cs) else none

end Pattern

end Conform
