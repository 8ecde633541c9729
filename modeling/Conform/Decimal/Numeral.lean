import Conform.Decimal.Double

/-!
# Decimal numerals

The written parts of a decimal number, and the value they spell. What a
format allows of the parts is said where the format is read.
-/

namespace Conform

/-- A sign, digits before and after a point, and an exponent, as written. -/
structure Numeral where
  sign : Option Char
  whole : List Char
  fraction : Option (List Char)
  exponent : Option (Option Char × List Char)
  deriving DecidableEq, Repr

namespace Numeral

/-- The number spelled by decimal digits. -/
def digitsValue (cs : List Char) : Nat :=
  cs.foldl (fun n c => 10 * n + (c.toNat - '0'.toNat)) 0

/-- A leading sign and what follows it. -/
def takeSign : List Char → Option Char × List Char
  | '+' :: cs => (some '+', cs)
  | '-' :: cs => (some '-', cs)
  | cs => (none, cs)

/-- The exponent a text consists of; nothing at all is no exponent. -/
def readExponent? : List Char → Option (Option (Option Char × List Char))
  | [] => some none
  | mark :: cs =>
    if mark = 'e' || mark = 'E' then
      let (sign, digits) := takeSign cs
      if !digits.isEmpty && digits.all Char.isDigit then some (some (sign, digits)) else none
    else none

/-- The parts of a text that is one numeral with at least one digit before its exponent. -/
def read? (cs : List Char) : Option Numeral := do
  let (sign, cs) := takeSign cs
  let whole := cs.takeWhile Char.isDigit
  let cs := cs.dropWhile Char.isDigit
  let (fraction, cs) := match cs with
    | '.' :: rest => (some (rest.takeWhile Char.isDigit), rest.dropWhile Char.isDigit)
    | _ => (none, cs)
  if whole.isEmpty && (fraction.getD []).isEmpty then none
  else
    let exponent ← readExponent? cs
    some ⟨sign, whole, fraction, exponent⟩

def negative (n : Numeral) : Bool := n.sign = some '-'

/-- Whether neither a point nor an exponent is written. -/
def isInteger (n : Numeral) : Bool := n.fraction.isNone && n.exponent.isNone

/-- The integer spelled by the digits before the point. -/
def toInt (n : Numeral) : Int :=
  if n.negative then -(digitsValue n.whole : Int) else digitsValue n.whole

/-- The written exponent, zero if there is none. -/
def power (n : Numeral) : Int :=
  match n.exponent with
  | none => 0
  | some (sign, digits) =>
    if sign = some '-' then -(digitsValue digits : Int) else digitsValue digits

/-- The nearest double, unless the numeral is beyond all of them. -/
def toDouble? (n : Numeral) : Option Double :=
  let fraction := n.fraction.getD []
  Double.ofDecimal? n.negative (digitsValue (n.whole ++ fraction)) (n.power - fraction.length)

end Numeral

end Conform
