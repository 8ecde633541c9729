import Conform.Calendar.Date
import Conform.Decode
import Conform.Uuid

/-!
# Date fields

A date where a record needs one. Blanks may stand around every number, and of
a text that is no date the first fault is told.
-/

namespace Conform

/-- What is wrong with a text that should be a date. -/
inductive DateFault where
  | ends
  | unexpected
  | outOfRange
  | goesOn
  deriving DecidableEq, Repr

namespace DateFault

def message : DateFault → String
  | ends => "premature end of input"
  | unexpected => "input contains invalid characters"
  | outOfRange => "input is out of range"
  | goesOn => "trailing input"

end DateFault

namespace CalendarDate

def skipBlanks (cs : List Char) : List Char := cs.dropWhile Text.isBlank

/-- A number of one digit or more, at most so many. -/
def takeNumber (most : Nat) (cs : List Char) : Except DateFault (Nat × List Char) :=
  match readNumber? most cs, cs with
  | some result, _ => .ok result
  | none, [] => .error .ends
  | none, _ => .error .unexpected

/-- The years that a text may write. -/
def isWritable (year : Int) : Bool := -(twoTo 31 : Int) ≤ year && year < twoTo 31

/-- A year: up to four digits, or any number of them behind a sign. -/
def takeYear (cs : List Char) : Except DateFault (Int × List Char) := do
  let (year, rest) ← match cs with
    | '-' :: rest => (takeNumber rest.length rest).map fun (n, rest) => (-(n : Int), rest)
    | '+' :: rest => (takeNumber rest.length rest).map fun (n, rest) => ((n : Int), rest)
    | cs => (takeNumber 4 cs).map fun (n, rest) => ((n : Int), rest)
  if isWritable year then .ok (year, rest) else .error .outOfRange

/-- Two digits at most for a number between bounds. -/
def takeBounded (low high : Nat) (cs : List Char) : Except DateFault (Nat × List Char) := do
  let (n, rest) ← takeNumber 2 cs
  if low ≤ n && n ≤ high then .ok (n, rest) else .error .outOfRange

def takeHyphen : List Char → Except DateFault (List Char)
  | [] => .error .ends
  | c :: rest => if c = '-' then .ok rest else .error .unexpected

/-- The date of a field's text. -/
def ofField (cs : List Char) : Except DateFault CalendarDate := do
  let (year, rest) ← takeYear (skipBlanks cs)
  let rest ← takeHyphen (skipBlanks rest)
  let (month, rest) ← takeBounded 1 12 (skipBlanks rest)
  let rest ← takeHyphen (skipBlanks rest)
  let (day, rest) ← takeBounded 1 31 (skipBlanks rest)
  if !(skipBlanks rest).isEmpty then .error .goesOn
  else
    match of? year month day with
    | some date => .ok date
    | none => .error .outOfRange

def decode : Json → Decode.Result CalendarDate
  | .str s =>
    match ofField s.toList with
    | .ok date => .ok date
    | .error fault => .error (.badDate fault.message)
  | v => .error (.wrongKind v "a formatted date string")

end CalendarDate

namespace Uuid

def decode : Json → Decode.Result Uuid
  | .str s =>
    match read? s with
    | some id => .ok id
    | none => .error .badIdentifier
  | v => .error (.wrongKind v "a UUID string")

end Uuid

end Conform
