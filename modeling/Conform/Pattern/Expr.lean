import Conform.Pattern.CharSet

/-!
# Pattern expressions

Regular expressions with assertions about the place they are met at, and the
language each of them describes inside a text.
-/

namespace Conform

namespace Pattern

/-- A condition on the characters around a place. -/
inductive Assertion where
  | textStart
  | textEnd
  | lineStart
  | lineEnd
  /-- The same with a carriage return before a line feed as one line end. -/
  | crlfLineStart
  | crlfLineEnd
  | wordBoundary (word : CharSet)
  | noWordBoundary (word : CharSet)
  | wordStart (word : CharSet)
  | wordEnd (word : CharSet)
  | wordStartHalf (word : CharSet)
  | wordEndHalf (word : CharSet)
  deriving DecidableEq, Repr

namespace Assertion

/-- Whether a character is there and in a set. -/
def among (word : CharSet) : Option Char → Bool
  | some c => word.mem c
  | none => false

/-- Whether the condition holds between two neighbours. -/
def holds (before after : Option Char) : Assertion → Bool
  | textStart => before.isNone
  | textEnd => after.isNone
  | lineStart => before.isNone || before == some '\n'
  | lineEnd => after.isNone || after == some '\n'
  | crlfLineStart =>
    before.isNone || before == some '\n' || (before == some '\r' && after != some '\n')
  | crlfLineEnd =>
    after.isNone || after == some '\r' || (after == some '\n' && before != some '\r')
  | wordBoundary w => among w before != among w after
  | noWordBoundary w => among w before == among w after
  | wordStart w => !among w before && among w after
  | wordEnd w => among w before && !among w after
  | wordStartHalf w => !among w before
  | wordEndHalf w => !among w after

end Assertion

inductive Expr where
  | empty
  | char (set : CharSet)
  | look (a : Assertion)
  | seq (a b : Expr)
  | alt (a b : Expr)
  /-- At least `low` times, and at most `high` times if there is a bound. -/
  | rep (e : Expr) (low : Nat) (high : Option Nat)
  | group (e : Expr)
  deriving DecidableEq, Repr

namespace Expr

mutual

/-- How deep operators and classes are nested; a chain of one operator counts once. -/
def nesting : Expr → Nat
  | empty | look _ => 0
  | char set => set.levels
  | seq a b => max a.nesting b.nestingSeq + 1
  | alt a b => max a.nesting b.nestingAlt + 1
  | rep e _ _ => e.nesting + 1
  | group e => e.nesting + 1

/-- The nesting of the rest of a sequence. -/
def nestingSeq : Expr → Nat
  | empty | look _ => 0
  | char set => set.levels
  | seq a b => max a.nesting b.nestingSeq
  | alt a b => max a.nesting b.nestingAlt + 1
  | rep e _ _ => e.nesting + 1
  | group e => e.nesting + 1

/-- The nesting of the rest of an alternation. -/
def nestingAlt : Expr → Nat
  | empty | look _ => 0
  | char set => set.levels
  | seq a b => max a.nesting b.nestingSeq + 1
  | alt a b => max a.nesting b.nestingAlt
  | rep e _ _ => e.nesting + 1
  | group e => e.nesting + 1

end

/--
A rough size in bytes of the program that a pattern would take. No program is built for it, so of
the patterns near the limit, such as a large class repeated many times, one may be refused whose
program would fit, or taken whose program would not.
-/
def programSize : Expr → Nat
  | empty => 0
  | char set => 24 * set.ranges
  | look _ => 24
  | seq a b => a.programSize + b.programSize
  | alt a b => a.programSize + b.programSize + 32
  | rep e low none => (max low 1) * e.programSize + 32
  | rep e low (some high) => low * e.programSize + (high - low) * (e.programSize + 32)
  | group e => e.programSize + 48

/--
Between two places of a text an expression matches. A place is given by the
characters before it, last first, and those after it.
-/
inductive Matches : Expr → List Char → List Char → List Char → List Char → Prop where
  | empty (before after : List Char) : Matches .empty before after before after
  | char {set : CharSet} {c : Char} {before after : List Char} (member : set.mem c = true) :
      Matches (.char set) before (c :: after) (c :: before) after
  | look {a : Assertion} {before after : List Char}
      (holds : a.holds before.head? after.head? = true) :
      Matches (.look a) before after before after
  | seq {a b : Expr} {before after before' after' before'' after'' : List Char}
      (first : Matches a before after before' after')
      (second : Matches b before' after' before'' after'') :
      Matches (.seq a b) before after before'' after''
  | altLeft {a b : Expr} {before after before' after' : List Char}
      (left : Matches a before after before' after') :
      Matches (.alt a b) before after before' after'
  | altRight {a b : Expr} {before after before' after' : List Char}
      (right : Matches b before after before' after') :
      Matches (.alt a b) before after before' after'
  | repDone {e : Expr} {high : Option Nat} (before after : List Char) :
      Matches (.rep e 0 high) before after before after
  | repNeeded {e : Expr} {low : Nat} {high : Option Nat}
      {before after before' after' before'' after'' : List Char}
      (first : Matches e before after before' after')
      (more : Matches (.rep e low (high.map (· - 1))) before' after' before'' after'') :
      Matches (.rep e (low + 1) high) before after before'' after''
  | repFree {e : Expr} {before after before' after' before'' after'' : List Char}
      (first : Matches e before after before' after')
      (more : Matches (.rep e 0 none) before' after' before'' after'') :
      Matches (.rep e 0 none) before after before'' after''
  | repBounded {e : Expr} {high : Nat}
      {before after before' after' before'' after'' : List Char}
      (first : Matches e before after before' after')
      (more : Matches (.rep e 0 (some high)) before' after' before'' after'') :
      Matches (.rep e 0 (some (high + 1))) before after before'' after''
  | group {e : Expr} {before after before' after' : List Char}
      (inner : Matches e before after before' after') :
      Matches (.group e) before after before' after'

end Expr

end Pattern

end Conform
