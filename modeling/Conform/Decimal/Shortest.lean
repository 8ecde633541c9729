import Conform.Decimal.Double

/-!
# Shortest decimal texts

The decimal text of a double holds the fewest significant digits that read
back as that double, and of those the ones nearest to it.
-/

namespace Conform

/-- The decimal number `digits · 10 ^ power`. -/
structure Decimal where
  digits : Nat
  power : Int
  deriving DecidableEq, Repr

namespace Decimal

/-- Trailing zeros moved into the power; `fuel` bounds their number. -/
def stripZeros : Nat → Decimal → Decimal
  | 0, d => d
  | fuel + 1, d =>
    if d.digits % 10 == 0 && d.digits != 0 then
      stripZeros fuel ⟨d.digits / 10, d.power + 1⟩
    else d

/-- The power of ten below or at a positive quotient, as an exponent. -/
def quotientLog (n d : Nat) : Int :=
  if d ≤ n then ((Nat.toDigits 10 (n / d)).length : Int) - 1
  else
    let fraction := (Nat.toDigits 10 (d / n)).length
    if d = n * tenTo (fraction - 1) then 1 - (fraction : Int) else -(fraction : Int)

/-- The neighbours of a quotient on the grid of `10 ^ power`, and twice the distance to each. -/
def neighbours (n d : Nat) (power : Int) : (Nat × Nat) × (Nat × Nat) :=
  let n' := if 0 ≤ power then n else n * tenTo (-power).toNat
  let d' := if 0 ≤ power then d * tenTo power.toNat else d
  let low := n' / d'
  let rest := n' % d'
  ((low, 2 * rest), (low + 1, 2 * (d' - rest)))

/-- The nearest neighbour that reads back, the even one where both are as near. -/
def onGrid? (x : Double) (power : Int) : Option Decimal :=
  let readsBack digits := Double.ofDecimal? x.negative digits power == some x
  let ((low, below), (high, above)) := neighbours x.ratio.1 x.ratio.2 power
  match readsBack low, readsBack high with
  | true, true =>
    if below < above || (below == above && low % 2 == 0) then some ⟨low, power⟩
    else some ⟨high, power⟩
  | true, false => some ⟨low, power⟩
  | false, true => some ⟨high, power⟩
  | false, false => none

/-- The magnitude of a double in the fewest digits that read back. -/
def shortest (x : Double) : Decimal :=
  if x.bits = 0 then ⟨0, 0⟩
  else
    let lead := quotientLog x.ratio.1 x.ratio.2
    let found := (List.range 17).findSome? fun (count : Nat) => onGrid? x (lead - (count : Int))
    stripZeros 20 (found.getD ⟨0, 0⟩)

/-- The digits of a decimal with its point, no exponent, and at least one digit on each side. -/
def positional (d : Decimal) : List Char × List Char :=
  let digits := Nat.toDigits 10 d.digits
  if 0 ≤ d.power then (digits ++ List.replicate d.power.toNat '0', [])
  else
    let places := (-d.power).toNat
    let padded := List.replicate (places + 1 - digits.length) '0' ++ digits
    (padded.take (padded.length - places), padded.drop (padded.length - places))

/-- The exponent of a decimal whose point stands behind its first digit. -/
def leadPower (d : Decimal) : Int :=
  d.power + ((Nat.toDigits 10 d.digits).length : Int) - 1

end Decimal

namespace Double

/--
The text of a double: with a point and at least one decimal where its leading
digit stands for `10 ^ -5` up to `10 ^ 15`, with a signed exponent elsewhere.
-/
def text (x : Double) : String :=
  let d := Decimal.shortest x
  let sign := if x.negative then "-" else ""
  let lead := d.leadPower
  if -5 ≤ lead && lead ≤ 15 then
    let (whole, decimals) := d.positional
    let decimals := if decimals.isEmpty then ['0'] else decimals
    sign ++ String.ofList (whole ++ '.' :: decimals)
  else
    let mantissa := match Nat.toDigits 10 d.digits with
      | [] => []
      | [digit] => [digit]
      | digit :: digits => digit :: '.' :: digits
    let mark := if lead < 0 then "e-" else "e+"
    sign ++ String.ofList mantissa ++ mark ++ toString lead.natAbs

/-- The text of a double without exponent, and without point where it is whole. -/
def plainText (x : Double) : String :=
  let (whole, decimals) := (Decimal.shortest x).positional
  let sign := if x.negative && x.bits != 0 then "-" else ""
  let tail := if decimals.isEmpty then [] else '.' :: decimals
  sign ++ String.ofList (whole ++ tail)

end Double

end Conform
