import Conform.Table
import Conform.Decimal.Shortest

/-!
# JSON values

Integers and floats stay apart: `1` and `1.0` are different values. An object
is a table from keys to values, so its keys come in code point order.
-/

namespace Conform

/-- A JSON number: an integer from `-2 ^ 63` to `2 ^ 64 - 1`, or a float. -/
inductive Number where
  | int (value : Int)
  | float (value : Double)
  deriving DecidableEq, Repr

namespace Number

/-- The integers a number without point and exponent may stand for. -/
def InRange (n : Int) : Prop := -(twoTo 63 : Int) ≤ n ∧ n < twoTo 64

instance (n : Int) : Decidable (InRange n) := inferInstanceAs (Decidable (_ ∧ _))

/-- The nearest double. -/
def toDouble : Number → Double
  | int n => Double.ofInt n
  | float x => x

/-- The written form. -/
def text : Number → String
  | int n => toString n
  | float x => x.text

end Number

/-- A JSON value. -/
inductive Json where
  | null
  | bool (value : Bool)
  | num (value : Number)
  | str (text : String)
  | arr (items : List Json)
  | obj (fields : List (String × Json))
  deriving Inhabited, Repr

namespace Json

instance : Coe String Json := ⟨str⟩
instance : Coe Bool Json := ⟨bool⟩

/-- A natural number as a value. -/
def ofNat (n : Nat) : Json := num (.int n)

/-- The object with the given entries; of repeated keys the last wins. -/
def object (entries : List (String × Json)) : Json := obj (Table.ofList entries)

/-- The value as given, null if there is none. -/
def orNull : Option Json → Json
  | some v => v
  | none => null

/-- The member of an object under a key. -/
def get? (key : String) : Json → Option Json
  | obj fields => Table.get? key fields
  | _ => none

/-- The text of a string value. -/
def text? : Json → Option String
  | str s => some s
  | _ => none

/-- The fields of an object value. -/
def fields? : Json → Option (List (String × Json))
  | obj fields => some fields
  | _ => none

mutual

/-- How many containers lie around the deepest value. -/
def depth : Json → Nat
  | arr items => depthItems items + 1
  | obj fields => depthFields fields + 1
  | _ => 0

def depthItems : List Json → Nat
  | [] => 0
  | v :: rest => max v.depth (depthItems rest)

def depthFields : List (String × Json) → Nat
  | [] => 0
  | (_, v) :: rest => max v.depth (depthFields rest)

end

mutual

/-- Equality of values, decided node by node. -/
def same : Json → Json → Bool
  | null, null => true
  | bool a, bool b => a == b
  | num a, num b => a == b
  | str a, str b => a == b
  | arr a, arr b => sameItems a b
  | obj a, obj b => sameFields a b
  | _, _ => false

def sameItems : List Json → List Json → Bool
  | [], [] => true
  | a :: as, b :: bs => same a b && sameItems as bs
  | _, _ => false

def sameFields : List (String × Json) → List (String × Json) → Bool
  | [], [] => true
  | (j, a) :: as, (k, b) :: bs => j == k && same a b && sameFields as bs
  | _, _ => false

end

mutual

theorem same_iff : (a b : Json) → (same a b = true ↔ a = b)
  | null, b => by cases b <;> simp [same]
  | bool a, b => by cases b <;> simp [same]
  | num a, b => by cases b <;> simp [same]
  | str a, b => by cases b <;> simp [same]
  | arr a, b => by
    cases b with
    | arr b => simpa [same] using sameItems_iff a b
    | _ => simp [same]
  | obj a, b => by
    cases b with
    | obj b => simpa [same] using sameFields_iff a b
    | _ => simp [same]

theorem sameItems_iff : (a b : List Json) → (sameItems a b = true ↔ a = b)
  | [], b => by cases b <;> simp [sameItems]
  | x :: xs, b => by
    cases b with
    | nil => simp [sameItems]
    | cons y ys => simp [sameItems, same_iff x y, sameItems_iff xs ys]

theorem sameFields_iff : (a b : List (String × Json)) → (sameFields a b = true ↔ a = b)
  | [], b => by cases b <;> simp [sameFields]
  | (k, x) :: xs, b => by
    cases b with
    | nil => simp [sameFields]
    | cons y ys =>
      obtain ⟨j, y⟩ := y
      simp [sameFields, same_iff x y, sameFields_iff xs ys, and_assoc]

end

instance : DecidableEq Json := fun a b =>
  decidable_of_iff (same a b = true) (same_iff a b)

end Json

end Conform
