import Conform.Json.Basic
import Conform.Decimal.Numeral
import Conform.Text.Digit
import Conform.Text.Utf8

/-!
# Reading JSON texts

Token after token drives a machine whose stack holds the containers still
open, until a value is complete. Texts nested deeper than a limit are refused.
-/

namespace Conform

namespace Json

inductive Token where
  | openArray
  | closeArray
  | openObject
  | closeObject
  | colon
  | comma
  | scalar (value : Json)

/-- The character a one-letter escape stands for. -/
def simpleEscape? (c : Char) : Option Char :=
  match c with
  | '"' => some '"'
  | '\\' => some '\\'
  | '/' => some '/'
  | 'b' => some (Char.ofNat 8)
  | 'f' => some (Char.ofNat 12)
  | 'n' => some '\n'
  | 'r' => some '\r'
  | 't' => some '\t'
  | _ => none

/-- The code point of a surrogate pair. -/
def pairValue (high low : Nat) : Nat :=
  0x10000 + (high - 0xD800) * 0x400 + (low - 0xDC00)

/-- The characters up to the closing quote, escapes resolved, and what follows the quote. -/
def readString? : List Char → Option (List Char × List Char)
  | [] => none
  | c :: rest =>
    if c = '"' then some ([], rest)
    else if c = '\\' then
      match rest with
      | [] => none
      | e :: rest =>
        if e = 'u' then
          match rest with
          | a :: b :: c :: d :: rest =>
            match Text.number? 16 [a, b, c, d] with
            | none => none
            | some n =>
              if 0xD800 ≤ n && n < 0xDC00 then
                match rest with
                | '\\' :: 'u' :: a :: b :: c :: d :: rest =>
                  match Text.number? 16 [a, b, c, d] with
                  | none => none
                  | some low =>
                    if 0xDC00 ≤ low && low < 0xE000 then
                      (readString? rest).map fun (cs, rest) =>
                        (Char.ofNat (pairValue n low) :: cs, rest)
                    else none
                | _ => none
              else if 0xDC00 ≤ n && n < 0xE000 then none
              else (readString? rest).map fun (cs, rest) => (Char.ofNat n :: cs, rest)
          | _ => none
        else
          match simpleEscape? e with
          | none => none
          | some c => (readString? rest).map fun (cs, rest) => (c :: cs, rest)
    else if c.toNat < 32 then none
    else (readString? rest).map fun (cs, rest) => (c :: cs, rest)

/--
The number a numeral stands for: an integer if it has neither point nor exponent and fits, else the
nearest double. A reader that scales the leading digits by a power of ten in floating point, as is
done for speed, may come out one unit in the last place beside it.
-/
def numberOf? (n : Numeral) : Option Number :=
  if n.isInteger && decide (Number.InRange n.toInt) && !(n.negative && n.toInt == 0) then
    some (.int n.toInt)
  else n.toDouble?.map .float

/-- The number a JSON literal stands for. -/
def readNumber? (cs : List Char) : Option Number := do
  let n ← Numeral.read? cs
  let wholeOk := match n.whole with
    | [] => false
    | ['0'] => true
    | c :: _ => c != '0'
  if n.sign != some '+' && wholeOk && n.fraction != some [] then numberOf? n else none

/-- The digits at the start of a text, and what follows them. -/
def spanDigits (cs : List Char) : List Char × List Char :=
  (cs.takeWhile Char.isDigit, cs.dropWhile Char.isDigit)

/-- A minus sign and digits, and what follows them. -/
def spanWhole : List Char → List Char × List Char
  | '-' :: rest => ('-' :: (spanDigits rest).1, (spanDigits rest).2)
  | cs => spanDigits cs

/-- A point and digits, and what follows them. -/
def spanFraction : List Char → List Char × List Char
  | '.' :: rest => ('.' :: (spanDigits rest).1, (spanDigits rest).2)
  | cs => ([], cs)

/-- An exponent, and what follows it. -/
def spanExponent : List Char → List Char × List Char
  | mark :: sign :: rest =>
    if mark = 'e' || mark = 'E' then
      if sign = '+' || sign = '-' then
        (mark :: sign :: (spanDigits rest).1, (spanDigits rest).2)
      else (mark :: (spanDigits (sign :: rest)).1, (spanDigits (sign :: rest)).2)
    else ([], mark :: sign :: rest)
  | [mark] => if mark = 'e' || mark = 'E' then ([mark], []) else ([], [mark])
  | [] => ([], [])

/-- The characters of a number at the start of a text, and what follows them. -/
def spanNumber (cs : List Char) : List Char × List Char :=
  let (whole, rest) := spanWhole cs
  let (fraction, rest) := spanFraction rest
  let (exponent, rest) := spanExponent rest
  (whole ++ fraction ++ exponent, rest)

/-- The value of the bare word at the start of a text, and what follows it. -/
def readWord? : List Char → Option (Json × List Char)
  | 't' :: 'r' :: 'u' :: 'e' :: rest => some (bool true, rest)
  | 'f' :: 'a' :: 'l' :: 's' :: 'e' :: rest => some (bool false, rest)
  | 'n' :: 'u' :: 'l' :: 'l' :: rest => some (null, rest)
  | _ => none

def isSpace (c : Char) : Bool := c == ' ' || c == '\n' || c == '\r' || c == '\t'

/-- The token that begins with a character, and what follows it. -/
def readToken? (c : Char) (rest : List Char) : Option (Token × List Char) :=
  match c with
  | '[' => some (.openArray, rest)
  | ']' => some (.closeArray, rest)
  | '\x7b' => some (.openObject, rest)
  | '\x7d' => some (.closeObject, rest)
  | ':' => some (.colon, rest)
  | ',' => some (.comma, rest)
  | '"' => (readString? rest).map fun (cs, rest) => (.scalar (str (String.ofList cs)), rest)
  | c =>
    if c = '-' || c.isDigit then
      let (number, rest) := spanNumber (c :: rest)
      (readNumber? number).map fun n => (.scalar (num n), rest)
    else (readWord? (c :: rest)).map fun (v, rest) => (.scalar v, rest)

/-- A container still open: the items so far, last first, or the fields so far and a key. -/
inductive Frame where
  | array (done : List Json)
  | object (done : List (String × Json)) (key : String)

/-- What may come next. -/
inductive Expect where
  | value
  | firstItem
  | firstKey
  | key
  | colon
  | next
  | nothing (result : Json)

structure Machine where
  stack : List Frame
  expect : Expect

namespace Machine

def start : Machine := ⟨[], .value⟩

/-- Hand a finished value to the innermost open container. -/
def deliver (v : Json) : List Frame → Machine
  | [] => ⟨[], .nothing v⟩
  | .array done :: stack => ⟨.array (v :: done) :: stack, .next⟩
  | .object done key :: stack => ⟨.object (Table.insert key v done) key :: stack, .next⟩

/-- Open a container unless the limit is reached. -/
def enter (limit : Nat) (frame : Frame) (expect : Expect) (stack : List Frame) : Option Machine :=
  if stack.length + 1 < limit then some ⟨frame :: stack, expect⟩ else none

/-- One token; none where it may not stand. -/
def step (limit : Nat) (m : Machine) (token : Token) : Option Machine :=
  match m.expect, token, m.stack with
  | .value, .scalar v, stack | .firstItem, .scalar v, stack => some (deliver v stack)
  | .value, .openArray, stack | .firstItem, .openArray, stack =>
    enter limit (.array []) .firstItem stack
  | .value, .openObject, stack | .firstItem, .openObject, stack =>
    enter limit (.object [] "") .firstKey stack
  | .firstItem, .closeArray, .array _ :: stack => some (deliver (arr []) stack)
  | .firstKey, .closeObject, .object _ _ :: stack => some (deliver (obj []) stack)
  | .firstKey, .scalar (str k), .object done _ :: stack
  | .key, .scalar (str k), .object done _ :: stack => some ⟨.object done k :: stack, .colon⟩
  | .colon, .colon, stack => some ⟨stack, .value⟩
  | .next, .comma, .array done :: stack => some ⟨.array done :: stack, .value⟩
  | .next, .comma, .object done k :: stack => some ⟨.object done k :: stack, .key⟩
  | .next, .closeArray, .array done :: stack => some (deliver (arr done.reverse) stack)
  | .next, .closeObject, .object done _ :: stack => some (deliver (obj done) stack)
  | _, _, _ => none

/-- The value of a machine that has read a whole text. -/
def result? (m : Machine) : Option Json :=
  match m.expect with
  | .nothing v => some v
  | _ => none

/--
The value at the start of a text, and what follows it. Each round takes at
least one character, so the length of the text is fuel enough.
-/
def run? (limit : Nat) : Nat → Machine → List Char → Option (Json × List Char)
  | 0, _, _ => none
  | fuel + 1, m, cs =>
    match m.result?, cs with
    | some v, cs => some (v, cs)
    | none, [] => none
    | none, c :: rest =>
      if isSpace c then run? limit fuel m rest
      else do
        let (token, rest) ← readToken? c rest
        run? limit fuel (← m.step limit token) rest

end Machine

/-- The value at the start of some characters, nested less deep than a limit. -/
def readStart? (limit : Nat) (cs : List Char) : Option (Json × List Char) :=
  Machine.start.run? limit (cs.length + 1) cs

/-- The depth at which a text is refused. -/
def depthLimit : Nat := 128

/-- The value a text stands for, its containers nested less deep than a limit. -/
def readWithin? (limit : Nat) (text : String) : Option Json := do
  let (v, rest) ← readStart? limit text.toList
  if rest.all isSpace then some v else none

/-- The value a JSON text stands for. -/
def read? (text : String) : Option Json := readWithin? depthLimit text

/-- The value that bytes stand for, which must be a JSON text. -/
def readBytes? (bytes : ByteArray) : Option Json := (String.fromUTF8? bytes).bind read?

/-- The value that bytes start with; what follows it does not matter, text or not. -/
def readFirst? (bytes : ByteArray) : Option Json :=
  (readStart? depthLimit (Utf8.start bytes)).map Prod.fst

end Json

end Conform
