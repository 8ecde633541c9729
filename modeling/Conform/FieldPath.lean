/-!
# Field paths

The place of a value inside a payload, from the root down.
-/

namespace Conform

/-- One step down: the position in an array or the key in an object. -/
inductive Segment where
  | index (position : Nat)
  | key (name : String)
  deriving DecidableEq, Repr

/-- The steps from the root of a payload to a value. -/
structure FieldPath where
  segments : List Segment
  deriving DecidableEq, Repr

namespace FieldPath

def root : FieldPath := ⟨[]⟩

def isRoot (p : FieldPath) : Bool := p.segments.isEmpty

def length (p : FieldPath) : Nat := p.segments.length

/-- One step further down. -/
def push (p : FieldPath) (s : Segment) : FieldPath := ⟨p.segments ++ [s]⟩

/-- The last step, and the path without it. -/
def pop? (p : FieldPath) : Option (Segment × FieldPath) :=
  p.segments.getLast?.map fun s => (s, ⟨p.segments.dropLast⟩)

/-- A step below the first. -/
def segmentText : Segment → String
  | .index position => "[" ++ toString position ++ "]"
  | .key name => "." ++ name

/-- The dotted form of a path; a key that comes first has no dot. -/
def text (p : FieldPath) : String :=
  match p.segments with
  | [] => "(root)"
  | .key name :: rest => name ++ String.join (rest.map segmentText)
  | .index position :: rest => String.join ((.index position :: rest).map segmentText)

@[simp] theorem segments_push (p : FieldPath) (s : Segment) :
    (p.push s).segments = p.segments ++ [s] := rfl

theorem pop?_push (p : FieldPath) (s : Segment) : (p.push s).pop? = some (s, p) := by
  simp [pop?, push]

end FieldPath

end Conform
