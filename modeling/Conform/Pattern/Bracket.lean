import Conform.Pattern.Escape

/-!
# Bracketed classes

Classes between square brackets: characters, ranges, named classes and nested
classes, joined by union, and `&&`, `--`, `~~` between unions.
-/

namespace Conform

namespace Pattern

/-- The operations between the unions of a class. -/
inductive SetOp where
  | inter
  | minus
  | xor

namespace SetOp

def apply (f : Flags) (op : SetOp) (a b : CharSet) : CharSet :=
  let a := f.fold a
  let b := f.fold b
  match op with
  | inter => .inter a b
  | minus => a.minus b
  | xor => .union (a.minus b) (b.minus a)

end SetOp

/-- A class still open: what it joins, first to last reversed, and the operation before that. -/
structure Bracket where
  negated : Bool
  pending : Option (SetOp × CharSet)
  items : List CharSet

namespace Bracket

/-- The union of the items so far, combined with the pending operation. -/
def combined (f : Flags) (b : Bracket) : CharSet :=
  let union := CharSet.unionAll b.items.reverse
  match b.pending with
  | some (op, left) => op.apply f left union
  | none => union

/-- The levels of nesting inside the brackets. An operation lies around both of its sides. -/
def levels (b : Bracket) : Nat :=
  match b.pending with
  | some (_, left) => max left.levels (CharSet.unionLevels b.items) + 1
  | none => CharSet.unionLevels b.items

/-- The set of a class that is closed; without Unicode it may hold ASCII only. -/
def close? (f : Flags) (b : Bracket) : Option CharSet :=
  let set := f.resolve (b.combined f) b.negated
  if f.admits set then some (.nested (b.levels + 1) set) else none

def add (b : Bracket) (set : CharSet) : Bracket := { b with items := set :: b.items }

/-- Let a named class or an element join the class; without Unicode it may hold ASCII only. -/
def join? (f : Flags) (b : Bracket) (set : CharSet) : Option Bracket :=
  if f.admits set then some (b.add set) else none

def operate (f : Flags) (op : SetOp) (b : Bracket) : Bracket :=
  { b with pending := some (op, .nested b.levels (b.combined f)), items := [] }

/-- Leading hyphens of a class stand for themselves. -/
def takeHyphens (extended : Bool) : Nat → Bracket → List Char → Bracket × List Char
  | 0, b, cs => (b, cs)
  | fuel + 1, b, cs =>
    match cs with
    | '-' :: rest => takeHyphens extended fuel (b.add (.single '-')) (skip extended rest)
    | _ => (b, cs)

/-- What follows an opening bracket: a negation, hyphens, and a closing bracket as a member. -/
def start (extended : Bool) (cs : List Char) : Bracket × List Char :=
  let cs := skip extended cs
  let (negated, cs) := match cs with
    | '^' :: rest => (true, skip extended rest)
    | _ => (false, cs)
  match takeHyphens extended cs.length ⟨negated, none, []⟩ cs with
  | (b, ']' :: rest) =>
    if b.items.isEmpty then (b.add (.single ']'), skip extended rest) else (b, ']' :: rest)
  | result => result

/-- A named ASCII class; its opening bracket is read already. -/
def readAscii? (f : Flags) (cs : List Char) : Option (CharSet × List Char) := do
  match cs with
  | ':' :: cs =>
    let (negated, cs) := match cs with
      | '^' :: rest => (true, rest)
      | _ => (false, cs)
    match cs.dropWhile (· != ':') with
    | ':' :: ']' :: rest =>
      let set ← CharSet.ofAsciiName? (cs.takeWhile (· != ':'))
      some (f.resolve set negated, rest)
    | _ => none
  | _ => none

/-- One element: a character or an escape. -/
def readAtom? (f : Flags) : List Char → Option (Atom × List Char)
  | [] => none
  | '\\' :: cs => readEscape? f cs
  | c :: cs => some (.literal c false, cs)

/-- The set of an element that stands alone. -/
def atomSet? (f : Flags) : Atom → Option CharSet
  | .literal c _ => if f.unicode || c.toNat < 128 then some (.single c) else none
  | .unicodeSet s negated => if f.unicode then some (f.resolve s negated) else none
  | .set s => some s
  | .look _ => none

/-- The character of an element that ends a range. -/
def atomLiteral? (f : Flags) : Atom → Option Char
  | .literal c _ => if f.unicode || c.toNat < 128 then some c else none
  | _ => none

/-- A range, or an element alone; a hyphen before a bracket or a hyphen makes no range. -/
def readRange? (f : Flags) (cs : List Char) : Option (CharSet × List Char) := do
  let (low, rest) ← readAtom? f cs
  match skip f.extended rest with
  | [] => none
  | '-' :: after =>
    let next := skip f.extended after
    if next.head? = some ']' || next.head? = some '-' then
      some (← atomSet? f low, '-' :: after)
    else
      let (high, rest) ← readAtom? f next
      let low ← atomLiteral? f low
      let high ← atomLiteral? f high
      if low ≤ high then some (.range low.toNat high.toNat, rest) else none
  | rest => some (← atomSet? f low, rest)

/-- Read on inside open classes; every round takes a character. -/
def readOn? (f : Flags) : Nat → Bracket → List Bracket → List Char →
    Option (CharSet × List Char)
  | 0, _, _, _ => none
  | fuel + 1, b, outer, cs =>
    match skip f.extended cs with
    | [] => none
    | '[' :: rest =>
      match readAscii? f rest with
      | some (set, rest) => do readOn? f fuel (← b.join? f set) outer rest
      | none =>
        let (inner, rest) := start f.extended rest
        readOn? f fuel inner (b :: outer) rest
    | ']' :: rest => do
      let set ← b.close? f
      match outer with
      | [] => some (set, rest)
      | parent :: outer => readOn? f fuel (parent.add set) outer rest
    | '&' :: '&' :: rest => readOn? f fuel (b.operate f .inter) outer rest
    | '-' :: '-' :: rest => readOn? f fuel (b.operate f .minus) outer rest
    | '~' :: '~' :: rest => readOn? f fuel (b.operate f .xor) outer rest
    | cs => do
      let (set, rest) ← readRange? f cs
      readOn? f fuel (← b.join? f set) outer rest

/-- The class behind an opening bracket. -/
def read? (f : Flags) (cs : List Char) : Option (CharSet × List Char) :=
  let (b, rest) := start f.extended cs
  readOn? f (cs.length + 1) b [] rest

end Bracket

end Pattern

end Conform
