import Conform.Calendar.Moment
import Conform.Decimal.Numeral
import Conform.Email
import Conform.Node
import Conform.Report
import Conform.Url
import Conform.Uuid

/-!
# Coercion

Scalars brought into the form that their kind or format asks for. A form that
came out of a coercion goes through it unchanged.
-/

namespace Conform

namespace Coerce

abbrev Result := Except Reason

/-- The value that is there, or the reason why none is. -/
def orReason {α : Type} (reason : Reason) : Option α → Result α
  | some a => .ok a
  | none => .error reason

/-- Strings, numbers and booleans as text. -/
def text : Json → Result String
  | .str s => .ok s
  | .num n => .ok n.text
  | .bool b => .ok (toString b)
  | _ => .error .invalidType

/-- Below this magnitude doubles are exact for all integers. -/
def exactLimit : Nat := twoTo 53

/-- A double as a number: an integer where it is whole and exact. -/
def numberOf (x : Double) : Number :=
  if x.isWhole && x.truncate.natAbs < exactLimit then .int x.truncate else .float x

/-- A number of a kind; only integers must be whole. -/
def whole (integer : Bool) (x : Double) (n : Number) : Result Number :=
  if integer && !x.isWhole then .error .notInteger else .ok n

/-- Numbers as they are, and strings that write a finite decimal number. -/
def number (integer : Bool) : Json → Result Number
  | .num n => whole integer n.toDouble n
  | .str s => do
    let x ← orReason .invalidType ((Numeral.read? (Text.trimChars s.toList)).bind Numeral.toDouble?)
    whole integer x (numberOf x)
  | _ => .error .invalidType

/-- Booleans as they are; of the strings, `true` in any letter case is true and all others are false. -/
def flag : Json → Result Bool
  | .bool b => .ok b
  | .str s => .ok (Text.lowerAscii (Text.trim s) == "true")
  | _ => .error .invalidType

/-- The moment that characters write: a timestamp, or a date for its midnight in UTC. -/
def momentOf? (cs : List Char) : Option Moment :=
  (Moment.readChars? cs).or ((CalendarDate.readChars? cs).map Moment.midnight)

/-- Timestamps, dates, and milliseconds since the start of 1970, as a timestamp in UTC. -/
def dateTime : Json → Result String
  | .str s => do .ok (← orReason .invalidDate (momentOf? (Text.trimChars s.toList))).text
  | .num (.int n) =>
    if n < twoTo 63 then do .ok (← orReason .invalidDate (Moment.ofMillis? n)).text
    else .error .invalidDate
  | _ => .error .invalidDate

def date (s : String) : Result String := do
  .ok (← orReason .invalidDate (CalendarDate.readChars? (Text.trimChars s.toList))).text

def uuid (s : String) : Result String := do
  .ok (← orReason .invalidFormat (Uuid.readChars? (Text.trimChars s.toList))).text

/-- A text that has to be of some form already. -/
def checked (holds : String → Bool) (s : String) : Result String :=
  if holds s then .ok s else .error .invalidFormat

/-- The text that a format makes of a value. -/
def formatted (format : Option Format) (v : Json) : Result String :=
  match format with
  | none => text v
  | some .dateTime => dateTime v
  | some .date => do date (← text v)
  | some .email => do checked Email.isAddress (← text v)
  | some .url => do checked Url.isAbsolute (← text v)
  | some .uuid => do uuid (← text v)

end Coerce

end Conform
