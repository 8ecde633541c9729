import Conform.Pattern.Bracket
import Conform.Pattern.Search
import Conform.Decimal.Numeral

/-!
# Reading patterns

A pattern is read from left to right with the groups still open on a stack.
Patterns nested too deeply, or whose program would be too large, are refused.
-/

namespace Conform

namespace Pattern

/-- A part of a sequence; a setting of flags matches nothing and cannot be repeated. -/
inductive Item where
  | expr (e : Expr)
  | flags

/-- The alternatives and the sequence around an open group, and the flags outside it. -/
structure Frame where
  flags : Flags
  alternatives : List Expr
  items : List Item

/-- The reading so far; alternatives and items stand last first. -/
structure Reading where
  flags : Flags := {}
  alternatives : List Expr := []
  items : List Item := []
  frames : List Frame := []
  names : List (List Char) := []

namespace Reading

def sequence : List Expr → Expr
  | [] => .empty
  | [e] => e
  | e :: rest => .seq e (sequence rest)

def choice : List Expr → Expr
  | [] => .empty
  | [e] => e
  | e :: rest => .alt e (choice rest)

/-- The sequence of the current alternative; a setting of flags counts as a part of it. -/
def current (r : Reading) : Expr :=
  sequence (r.items.reverse.map fun item =>
    match item with
    | .expr e => e
    | .flags => .empty)

/-- All alternatives of the innermost open group. -/
def body (r : Reading) : Expr := choice (r.current :: r.alternatives).reverse

def add (r : Reading) (e : Expr) : Reading := { r with items := .expr e :: r.items }

def addSet (r : Reading) (set : CharSet) : Reading := r.add (.char set)

def alternate (r : Reading) : Reading :=
  { r with alternatives := r.current :: r.alternatives, items := [] }

/-- Open a group under some flags. -/
def enter (r : Reading) (flags : Flags) : Reading :=
  { r with
    flags, alternatives := [], items := [],
    frames := ⟨r.flags, r.alternatives, r.items⟩ :: r.frames }

/-- Close the innermost group. -/
def leave? (r : Reading) : Option Reading :=
  match r.frames with
  | [] => none
  | frame :: frames =>
    some { r with
      flags := frame.flags, alternatives := frame.alternatives,
      items := .expr (.group r.body) :: frame.items, frames }

/-- Repeat the last item, if there is one that can be repeated. -/
def repeat? (r : Reading) (low : Nat) (high : Option Nat) : Option Reading :=
  match r.items with
  | .expr e :: items => some { r with items := .expr (.rep e low high) :: items }
  | _ => none

/-- Add a single element; without Unicode it may stand for ASCII only. -/
def addAtom? (r : Reading) (a : Atom) : Option Reading :=
  let f := r.flags
  match a with
  | .literal c byte =>
    if !f.unicode && byte && 128 ≤ c.toNat then none else some (r.addSet (f.fold (.single c)))
  | .unicodeSet s negated => if f.unicode then some (r.addSet (f.resolve s negated)) else none
  | .set s => if f.admits s then some (r.addSet s) else none
  | .look a => some (r.add (.look a))

def dot? (r : Reading) : Option Reading :=
  let f := r.flags
  if !f.unicode then none
  else if f.dotAll then some (r.addSet .anything)
  else if f.crlf then some (r.addSet (.compl (.union (.single '\n') (.single '\r'))))
  else some (r.addSet (.compl (.single '\n')))

def lineStart (r : Reading) : Reading :=
  r.add (.look (
    if !r.flags.multiLine then .textStart
    else if r.flags.crlf then .crlfLineStart else .lineStart))

def lineEnd (r : Reading) : Reading :=
  r.add (.look (
    if !r.flags.multiLine then .textEnd
    else if r.flags.crlf then .crlfLineEnd else .lineEnd))

end Reading

/-- A count below `2 ^ 32`, blanks allowed around it; none if no digit is there. -/
def readCount? (extended : Bool) (cs : List Char) : Option (Option Nat × List Char) :=
  let cs := cs.dropWhile Text.isBlank
  let (digits, rest) := takeSkipping extended Char.isDigit (cs.length + 1) cs
  let rest := skip extended (rest.dropWhile Text.isBlank)
  if digits.isEmpty then some (none, rest)
  else
    let n := Numeral.digitsValue digits
    if n < twoTo 32 then some (some n, rest) else none

/-- The bounds of a counted repetition, up to its closing brace and a mark of laziness. -/
def readBounds? (extended : Bool) (cs : List Char) :
    Option ((Nat × Option Nat) × List Char) := do
  let close (low : Nat) (high : Option Nat) (cs : List Char) :
      Option ((Nat × Option Nat) × List Char) :=
    match cs with
    | '\x7d' :: rest =>
      let rest := match skip extended rest with
        | '?' :: rest => rest
        | rest => rest
      if (high.getD low) < low then none else some ((low, high), rest)
    | _ => none
  let (low, rest) ← readCount? extended (skip extended cs)
  let low ← low
  match rest with
  | ',' :: rest =>
    match skip extended rest with
    | '\x7d' :: rest => close low none ('\x7d' :: rest)
    | rest =>
      let (high, rest) ← readCount? extended rest
      close low (some (← high)) rest
  | rest => close low (some low) rest

/-- Set one flag by its letter. -/
def setFlag? (f : Flags) (on : Bool) (c : Char) : Option Flags :=
  match c with
  | 'i' => some { f with ignoreCase := on }
  | 'm' => some { f with multiLine := on }
  | 's' => some { f with dotAll := on }
  | 'R' => some { f with crlf := on }
  | 'u' => some { f with unicode := on }
  | 'x' => some { f with extended := on }
  | 'U' => some f
  | _ => none

/-- The flags before a colon or a closing parenthesis, each letter at most once. -/
def readFlags? (f : Flags) (on : Bool) (seen : List Char) :
    List Char → Option (Flags × Bool × List Char)
  | [] => none
  | c :: cs =>
    if c = ':' || c = ')' then
      if seen.head? = some '-' then none else some (f, seen.isEmpty, c :: cs)
    else if seen.contains c then none
    else if c = '-' then readFlags? f false ('-' :: seen) cs
    else
      match setFlag? f on c with
      | some f => readFlags? f on (c :: seen) cs
      | none => none

/-- Whether a character may stand in a group's name. -/
def isNameChar (first : Bool) (c : Char) : Bool :=
  let letter := c == '_' || CharSet.mem (.property "alphabetic") c
  if first then letter
  else
    letter || c == '.' || c == '[' || c == ']' ||
      (CharSet.ofCategoryName? "n").any fun n => n.mem c

/-- The name of a group, up to its closing angle; a name is given only once. -/
def readName? (r : Reading) (cs : List Char) : Option (Reading × List Char) :=
  let name := cs.takeWhile (· != '>')
  match name, cs.dropWhile (· != '>') with
  | first :: more, _ :: rest =>
    if isNameChar true first && more.all (isNameChar false) && !r.names.contains name then
      some ({ r with names := name :: r.names }.enter r.flags, rest)
    else none
  | _, _ => none

/-- What follows an opening parenthesis. -/
def readGroup? (r : Reading) (cs : List Char) : Option (Reading × List Char) := do
  match skip r.flags.extended cs with
  | '?' :: '=' :: _ | '?' :: '!' :: _ | '?' :: '<' :: '=' :: _ | '?' :: '<' :: '!' :: _ => none
  | '?' :: 'P' :: '<' :: rest | '?' :: '<' :: rest => readName? r rest
  | '?' :: rest =>
    let (flags, isEmpty, rest) ← readFlags? r.flags true [] rest
    match rest with
    | ')' :: rest =>
      if isEmpty then none else some ({ r with flags, items := .flags :: r.items }, rest)
    | _ :: rest => some (r.enter flags, rest)
    | [] => none
  | rest => some (r.enter r.flags, rest)

/-- Read what begins with a character. -/
def step? (r : Reading) (c : Char) (cs : List Char) : Option (Reading × List Char) :=
  let uncounted (low : Nat) (high : Option Nat) : Option (Reading × List Char) :=
    (r.repeat? low high).map fun r =>
      match cs with
      | '?' :: rest => (r, rest)
      | _ => (r, cs)
  match c with
  | '(' => readGroup? r cs
  | ')' => r.leave?.map (·, cs)
  | '|' => some (r.alternate, cs)
  | '[' => do
    let (set, rest) ← Bracket.read? r.flags cs
    some (r.addSet set, rest)
  | '?' => uncounted 0 (some 1)
  | '*' => uncounted 0 none
  | '+' => uncounted 1 none
  | '\x7b' => do
    let ((low, high), rest) ← readBounds? r.flags.extended cs
    some (← r.repeat? low high, rest)
  | '\\' => do
    let (a, rest) ← readEscape? r.flags cs
    some (← r.addAtom? a, rest)
  | '.' => r.dot?.map (·, cs)
  | '^' => some (r.lineStart, cs)
  | '$' => some (r.lineEnd, cs)
  | c => (r.addAtom? (.literal c false)).map (·, cs)

/-- Read to the end of a pattern; every round takes a character. -/
def readOn? : Nat → Reading → List Char → Option Expr
  | 0, _, _ => none
  | fuel + 1, r, cs =>
    match skip r.flags.extended cs with
    | [] => if r.frames.isEmpty then some r.body else none
    | c :: rest => do
      let (r, rest) ← step? r c rest
      readOn? fuel r rest

/-- The deepest nesting of operators that is read. -/
def nestingLimit : Nat := 250

/-- The largest program, in bytes. -/
def sizeLimit : Nat := 10 * 1024 * 1024

/-- The expression that a pattern writes. -/
def read? (pattern : String) : Option Expr := do
  let cs := pattern.toList
  let e ← readOn? (cs.length + 1) {} cs
  if e.nesting ≤ nestingLimit && e.programSize ≤ sizeLimit then some e else none

/-- The expression of a pattern between the ends of the text. -/
def readWhole? (pattern : String) : Option Expr :=
  read? ("^(?:" ++ pattern ++ ")$")

end Pattern

end Conform
