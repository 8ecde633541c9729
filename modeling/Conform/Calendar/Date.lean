import Conform.Decimal.Numeral
import Conform.Text.Blank

/-!
# Calendar dates

Dates of the Gregorian calendar, extended to all years, and their number of
days from 1970-01-01.
-/

namespace Conform

structure CalendarDate where
  year : Int
  month : Nat
  day : Nat
  deriving DecidableEq, Repr

namespace CalendarDate

def isLeapYear (year : Int) : Bool :=
  year % 4 == 0 && (year % 100 != 0 || year % 400 == 0)

def daysInMonth (year : Int) (month : Nat) : Nat :=
  if month = 2 then if isLeapYear year then 29 else 28
  else if month = 4 || month = 6 || month = 9 || month = 11 then 30
  else 31

/-- The years that dates are known for. -/
def firstYear : Int := -262143

def lastYear : Int := 262142

/-- The date, if the calendar has it. -/
def of? (year : Int) (month day : Nat) : Option CalendarDate :=
  if firstYear ≤ year && year ≤ lastYear && 1 ≤ month && month ≤ 12 && 1 ≤ day &&
      day ≤ daysInMonth year month then
    some ⟨year, month, day⟩
  else none

/--
Days from 1970-01-01. Years are counted from March, so that the leap day ends
a year, and 400 of them make an era of 146097 days.
-/
def dayNumber (d : CalendarDate) : Int :=
  let year := if d.month ≤ 2 then d.year - 1 else d.year
  let era := year / 400
  let yearOfEra := year - era * 400
  let month : Int := if d.month ≤ 2 then d.month + 9 else d.month - 3
  let dayOfYear := (153 * month + 2) / 5 + d.day - 1
  let dayOfEra := yearOfEra * 365 + yearOfEra / 4 - yearOfEra / 100 + dayOfYear
  era * 146097 + dayOfEra - 719468

/-- The date so many days from 1970-01-01. -/
def ofDayNumber (n : Int) : CalendarDate :=
  let shifted := n + 719468
  let era := shifted / 146097
  let dayOfEra := shifted - era * 146097
  let yearOfEra := (dayOfEra - dayOfEra / 1460 + dayOfEra / 36524 - dayOfEra / 146096) / 365
  let dayOfYear := dayOfEra - (365 * yearOfEra + yearOfEra / 4 - yearOfEra / 100)
  let month := (5 * dayOfYear + 2) / 153
  let day := dayOfYear - (153 * month + 2) / 5 + 1
  let month := if month < 10 then month + 3 else month - 9
  let year := yearOfEra + era * 400
  ⟨if month ≤ 2 then year + 1 else year, month.toNat, day.toNat⟩

/-- Decimal digits filled up with zeros on the left. -/
def padded (width n : Nat) : List Char :=
  let digits := Nat.toDigits 10 n
  List.replicate (width - digits.length) '0' ++ digits

/-- Four digits for a year from 0 to 9999; a sign and at least four digits for others. -/
def yearChars (year : Int) : List Char :=
  if 0 ≤ year && year ≤ 9999 then padded 4 year.toNat
  else (if year < 0 then '-' else '+') :: padded 4 year.natAbs

def chars (d : CalendarDate) : List Char :=
  yearChars d.year ++ '-' :: padded 2 d.month ++ '-' :: padded 2 d.day

/-- Year, month and day with hyphens between them. -/
def text (d : CalendarDate) : String := String.ofList d.chars

/-- A number of one digit or more, at most so many, and what follows. -/
def readNumber? (most : Nat) (cs : List Char) : Option (Nat × List Char) :=
  let digits := (cs.takeWhile Char.isDigit).take most
  if digits.isEmpty then none
  else some (Numeral.digitsValue digits, cs.drop digits.length)

/-- A year: up to four digits, or any number of them behind a sign. -/
def readYear? (cs : List Char) : Option (Int × List Char) :=
  match cs with
  | '-' :: rest => (readNumber? rest.length rest).map fun (n, rest) => (-(n : Int), rest)
  | '+' :: rest => (readNumber? rest.length rest).map fun (n, rest) => ((n : Int), rest)
  | cs => (readNumber? 4 cs).map fun (n, rest) => ((n : Int), rest)

def readHyphen? : List Char → Option (List Char)
  | '-' :: rest => some rest
  | _ => none

/-- The date a text writes; blanks may stand before each number, not after one. -/
def readChars? (cs : List Char) : Option CalendarDate := do
  let (year, rest) ← readYear? (cs.dropWhile Text.isBlank)
  let rest ← readHyphen? rest
  let (month, rest) ← readNumber? 2 (rest.dropWhile Text.isBlank)
  let rest ← readHyphen? rest
  let (day, rest) ← readNumber? 2 (rest.dropWhile Text.isBlank)
  if rest.isEmpty then of? year month day else none

end CalendarDate

end Conform
