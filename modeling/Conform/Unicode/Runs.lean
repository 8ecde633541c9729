/-!
# Run tables

A property of all code points is a list of runs: consecutive code points that
share a value. In a table's text a run is a letter for the value and the
length in decimal, the length left out where it is one. All tables are those
of Unicode 15.0; characters of a later version count as unassigned.
-/

namespace Conform

namespace Unicode

/-- The start and the letter of each run, with the code point after the last run. -/
structure Runs where
  starts : Array Nat
  letters : Array Char

namespace Runs

/-- Reading state: runs so far, the start of the open run, its letter, its digits. -/
structure Reading where
  starts : Array Nat
  letters : Array Char
  start : Nat
  letter : Option Char
  digits : Option Nat

/-- The start of the run after the open one. -/
def Reading.next (r : Reading) : Nat :=
  match r.letter with
  | none => r.start
  | some _ => r.start + r.digits.getD 1

def Reading.close (r : Reading) : Reading :=
  match r.letter with
  | none => r
  | some c => ⟨r.starts.push r.start, r.letters.push c, r.next, none, none⟩

def Reading.char (r : Reading) (c : Char) : Reading :=
  if c.isDigit then { r with digits := some (10 * r.digits.getD 0 + (c.toNat - '0'.toNat)) }
  else { r.close with letter := some c, digits := none }

/-- The runs written in the lines of a table. -/
def ofLines (lines : List String) : Runs :=
  let r := lines.foldl (fun r line => line.toList.foldl Reading.char r) ⟨#[], #[], 0, none, none⟩
  ⟨r.close.starts, r.close.letters⟩

/-- Halve the interval of indices until one is left; thirty rounds serve a billion runs. -/
def search (starts : Array Nat) (n : Nat) : Nat → Nat → Nat → Nat
  | 0, low, _ => low
  | fuel + 1, low, high =>
    if high ≤ low + 1 then low
    else
      let middle := (low + high) / 2
      if starts[middle]?.getD 0 ≤ n then search starts n fuel middle high
      else search starts n fuel low middle

/-- The letter of the run a code point lies in. -/
def letterAt (runs : Runs) (n : Nat) : Char :=
  runs.letters[search runs.starts n 30 0 runs.starts.size]?.getD ' '

end Runs

end Unicode

end Conform
