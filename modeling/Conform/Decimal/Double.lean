import Conform.Decimal.Power

/-!
# Binary64 numbers

A finite double is a sign and the 63 bits below it. Read as a natural number,
those bits order the magnitudes, so comparison needs no decoding, and rounding
a quotient to nearest produces them directly.
-/

namespace Conform

/-- A finite binary64 number. -/
structure Double where
  negative : Bool
  bits : Nat
  finite : bits < 2047 * twoTo 52
  deriving DecidableEq, Repr

namespace Double

def zero : Double := ⟨false, 0, by decide⟩

def negativeZero : Double := ⟨true, 0, by decide⟩

/-- The greatest finite double, with the given sign. -/
def largest (negative : Bool) : Double := ⟨negative, 2047 * twoTo 52 - 1, by decide⟩

/-- The whole number that `exponent` scales. -/
def significand (x : Double) : Nat :=
  if x.bits < twoTo 52 then x.bits else twoTo 52 + x.bits % twoTo 52

/-- The magnitude is `significand · 2 ^ exponent`. -/
def exponent (x : Double) : Int :=
  (max 1 (x.bits / twoTo 52) : Nat) - 1075

/-- Position in the order of the represented reals; both zeros stand at 0. -/
def rank (x : Double) : Int :=
  if x.negative then -(x.bits : Int) else x.bits

def lt (x y : Double) : Bool := x.rank < y.rank

/-- The numerator and denominator of the magnitude. -/
def ratio (x : Double) : Nat × Nat :=
  if 0 ≤ x.exponent then (x.significand * twoTo x.exponent.toNat, 1)
  else (x.significand, twoTo (-x.exponent).toNat)

/-- Whether the represented real is a whole number. -/
def isWhole (x : Double) : Bool :=
  x.ratio.1 % x.ratio.2 == 0

/-- The represented real, rounded toward zero. -/
def truncate (x : Double) : Int :=
  let magnitude : Int := (x.ratio.1 / x.ratio.2 : Nat)
  if x.negative then -magnitude else magnitude

/-- The quotient rounded to nearest, a half to the even neighbour. -/
def roundQuotient (n d : Nat) : Nat :=
  let q := n / d
  let r := n % d
  if 2 * r < d then q
  else if d < 2 * r then q + 1
  else q + q % 2

/-- The power of two below or at a positive quotient, as an exponent. -/
def quotientLog (n d : Nat) : Int :=
  let guess : Int := (Nat.log2 n : Int) - Nat.log2 d
  let reached := if 0 ≤ guess then d * twoTo guess.toNat ≤ n else d ≤ n * twoTo (-guess).toNat
  if reached then guess else guess - 1

/--
The bits of the double nearest to a quotient. The significand is rounded on
the grid of its binade, and a carry out of it moves on to the next binade.
-/
def nearestBits (n d : Nat) : Nat :=
  if n = 0 then 0
  else
    let grid := max (quotientLog n d - 52) (-1074)
    let rounded :=
      if 0 ≤ grid then roundQuotient n (d * twoTo grid.toNat)
      else roundQuotient (n * twoTo (-grid).toNat) d
    (grid + 1074).toNat * twoTo 52 + rounded

/-- The double nearest to a signed quotient, unless its magnitude is beyond all of them. -/
def ofQuotient? (negative : Bool) (n d : Nat) : Option Double :=
  let bits := nearestBits n d
  if h : bits < 2047 * twoTo 52 then some ⟨negative, bits, h⟩ else none

/-- The double nearest to an integer, the greatest one where all are smaller. -/
def ofInt (i : Int) : Double :=
  (ofQuotient? (i < 0) i.natAbs 1).getD (largest (i < 0))

/--
The double nearest to `digits · 10 ^ power`. The guards settle magnitudes far
outside the format without raising ten to a huge power.
-/
def ofDecimal? (negative : Bool) (digits : Nat) (power : Int) : Option Double :=
  let length : Int := (Nat.toDigits 10 digits).length
  if digits = 0 || length + power < -330 then some ⟨negative, 0, by decide⟩
  else if 310 < length + power then none
  else if 0 ≤ power then ofQuotient? negative (digits * tenTo power.toNat) 1
  else ofQuotient? negative digits (tenTo (-power).toNat)

theorem lt_iff (x y : Double) : lt x y = true ↔ x.rank < y.rank := by
  simp [lt]

theorem rank_zero : zero.rank = negativeZero.rank := by decide

end Double

end Conform
