import Conform.Calendar.Date

/-!
# Moments

Points of time in UTC with nanoseconds. In a leap second the nanoseconds go on
past a thousand million.
-/

namespace Conform

structure Moment where
  /-- Days from 1970-01-01. -/
  day : Int
  /-- Seconds of the day. -/
  second : Nat
  nano : Nat
  deriving DecidableEq, Repr

namespace Moment

/-- Moments are ordered by day, then by second, then within the second, also a leap second. -/
instance : LT Moment :=
  ⟨fun a b => a.day < b.day ∨
    a.day = b.day ∧ (a.second < b.second ∨ a.second = b.second ∧ a.nano < b.nano)⟩

instance (a b : Moment) : Decidable (a < b) := inferInstanceAs (Decidable (_ ∨ _))

def midnight (d : CalendarDate) : Moment := ⟨d.dayNumber, 0, 0⟩

def nanosPerSecond : Nat := 1000000000

/-- The moment so many milliseconds after the start of 1970, if its date is known. -/
def ofMillis? (millis : Int) : Option Moment :=
  let seconds := millis / 1000
  let m : Moment :=
    ⟨seconds / 86400, (seconds % 86400).toNat, (millis % 1000).toNat * 1000000⟩
  let first : CalendarDate := ⟨CalendarDate.firstYear, 1, 1⟩
  let last : CalendarDate := ⟨CalendarDate.lastYear, 12, 31⟩
  if first.dayNumber ≤ m.day && m.day ≤ last.dayNumber then some m else none

/-- The fraction in three, six or nine digits, the fewest that lose nothing. -/
def fractionChars (nano : Nat) : List Char :=
  if nano = 0 then []
  else if nano % 1000000 = 0 then '.' :: CalendarDate.padded 3 (nano / 1000000)
  else if nano % 1000 = 0 then '.' :: CalendarDate.padded 6 (nano / 1000)
  else '.' :: CalendarDate.padded 9 nano

/-- The moment in UTC, marked by `Z`. -/
def text (m : Moment) : String :=
  let second := m.second % 60 + m.nano / nanosPerSecond
  String.ofList ((CalendarDate.ofDayNumber m.day).chars ++ 'T' ::
    CalendarDate.padded 2 (m.second / 3600) ++ ':' ::
    CalendarDate.padded 2 (m.second / 60 % 60) ++ ':' ::
    CalendarDate.padded 2 second ++ fractionChars (m.nano % nanosPerSecond) ++ ['Z'])

/-- Exactly so many digits. -/
def readDigits? (count : Nat) (cs : List Char) : Option (Nat × List Char) :=
  let digits := cs.take count
  if digits.length = count && digits.all Char.isDigit then
    some (Numeral.digitsValue digits, cs.drop count)
  else none

def readChar? (expected : Char) : List Char → Option (List Char)
  | c :: rest => if c = expected then some rest else none
  | [] => none

/-- Nanoseconds behind a point; digits past the ninth do not count. -/
def readFraction? : List Char → Option (Nat × List Char)
  | '.' :: rest =>
    let digits := rest.takeWhile Char.isDigit
    if digits.isEmpty then none
    else
      let nine := digits.take 9
      some (Numeral.digitsValue nine * tenTo (9 - nine.length), rest.dropWhile Char.isDigit)
  | cs => some (0, cs)

/-- The offset of local time from UTC in minutes; it ends the text. -/
def readOffset? : List Char → Option Int
  | ['Z'] | ['z'] => some 0
  | sign :: rest => do
    let (hours, rest) ← readDigits? 2 rest
    let rest ← readChar? ':' rest
    let (minutes, rest) ← readDigits? 2 rest
    if !rest.isEmpty || 24 ≤ hours || 60 ≤ minutes then none
    else
      let offset : Int := (hours * 60 + minutes : Nat)
      if sign = '+' then some offset
      else if sign = '-' || sign.toNat = 0x2212 then some (-offset)
      else none
  | [] => none

/-- What divides the date from the time of day. -/
def readDivider? : List Char → Option (List Char)
  | c :: rest => if c = 'T' || c = 't' || c = ' ' then some rest else none
  | [] => none

/-- The moment of a local time, so many minutes ahead of UTC; a second of 60 is a leap second. -/
def ofLocal? (date : CalendarDate) (hour minute second nano : Nat) (offset : Int) :
    Option Moment :=
  if 24 ≤ hour || 60 ≤ minute || 61 ≤ second then none
  else
    let leap := second = 60
    let seconds := hour * 3600 + minute * 60 + (if leap then 59 else second)
    let total : Int := date.dayNumber * 86400 + seconds - offset * 60
    some ⟨total / 86400, (total % 86400).toNat, nano + (if leap then nanosPerSecond else 0)⟩

/-- A date and a time of day with its offset, as internet timestamps are written. -/
def readTimestamp? (cs : List Char) : Option Moment := do
  let (year, rest) ← readDigits? 4 cs
  let rest ← readChar? '-' rest
  let (month, rest) ← readDigits? 2 rest
  let rest ← readChar? '-' rest
  let (day, rest) ← readDigits? 2 rest
  let rest ← readDivider? rest
  let (hour, rest) ← readDigits? 2 rest
  let rest ← readChar? ':' rest
  let (minute, rest) ← readDigits? 2 rest
  let rest ← readChar? ':' rest
  let (second, rest) ← readDigits? 2 rest
  let (nano, rest) ← readFraction? rest
  let offset ← readOffset? rest
  ofLocal? (← CalendarDate.of? year month day) hour minute second nano offset

/-- The moment a text writes: a timestamp, or a date for its midnight. -/
def readChars? (cs : List Char) : Option Moment :=
  (readTimestamp? cs).or ((CalendarDate.readChars? cs).map midnight)

end Moment

end Conform
