import Conform.Pattern.Expr

/-!
# Searching a text

The places of a text are numbered from its start. An expression turns the set
of places where it may begin into the set of places where it may end; a text
contains a match if that set is not empty, all places being offered at first.
-/

namespace Conform

namespace Pattern

/-- A set of places: one mark for each, in order. -/
abbrev Marks := List Bool

namespace Marks

def union (a b : Marks) : Marks := List.zipWith (· || ·) a b

def isEmpty (a : Marks) : Bool := !a.any id

end Marks

/-- The characters of a text, and the neighbours of each of its places. -/
structure Places where
  chars : List Char
  neighbours : List (Option Char × Option Char)

namespace Places

def ofChars (chars : List Char) : Places :=
  ⟨chars, (none :: chars.map some).zip (chars.map some ++ [none])⟩

end Places

namespace Expr

/-- The marks reached from some marks by any number of steps; `fuel` steps are enough. -/
def closure (step : Marks → Marks) : Nat → Marks → Marks
  | 0, marks => marks
  | fuel + 1, marks =>
    let next := marks.union (step marks)
    if next = marks then marks else closure step fuel next

/-- The marks reached by exactly `count` steps. -/
def repeated (step : Marks → Marks) : Nat → Marks → Marks
  | 0, marks => marks
  | count + 1, marks =>
    let next := step marks
    if next = marks then marks else repeated step count next

/-- The places where a match may end that began at a marked place. -/
def ends (p : Places) : Expr → Marks → Marks
  | empty, marks => marks
  | char set, marks => false :: List.zipWith (fun mark c => mark && set.mem c) marks p.chars
  | look a, marks =>
    List.zipWith (fun mark (before, after) => mark && a.holds before after) marks p.neighbours
  | seq a b, marks => b.ends p (a.ends p marks)
  | alt a b, marks => (a.ends p marks).union (b.ends p marks)
  | rep e low none, marks => closure (e.ends p) (p.chars.length + 1) (repeated (e.ends p) low marks)
  | rep e low (some high), marks => closure (e.ends p) (high - low) (repeated (e.ends p) low marks)
  | group e, marks => e.ends p marks

/-- Whether a text contains a match. -/
def isIn (e : Expr) (text : String) : Bool :=
  let p := Places.ofChars text.toList
  !(e.ends p (p.neighbours.map fun _ => true)).isEmpty

end Expr

end Pattern

end Conform
