import Conform.Decimal.Power
import Conform.Text.Blank
import Conform.Text.Digit
import Conform.Url.Domain

/-!
# Hosts

Which texts name the host of a URL: a domain name, an address of four numbers,
an address of eight groups between brackets, or, in a URL whose scheme is not
special, any text without a separator.
-/

namespace Conform

namespace Host

/-- The number that one part of an address writes: decimal, or octal behind `0`, or hexadecimal behind `0x`. -/
def addressNumber? (cs : List Char) : Option Nat :=
  match cs with
  | [] => none
  | '0' :: 'x' :: digits | '0' :: 'X' :: digits => Text.number? 16 digits
  | '0' :: digit :: digits => Text.number? 8 (digit :: digits)
  | digits => Text.number? 10 digits

/-- The parts of a domain name, less an empty one at its end. -/
def parts (domain : List Char) : List (List Char) :=
  let pieces := Text.splitChars '.' domain
  match pieces.getLast? with
  | some [] => pieces.dropLast
  | _ => pieces

/-- Whether the last part of a domain name is a number, so that all of it must be an address. -/
def endsInNumber (domain : List Char) : Bool :=
  match (parts domain).getLast? with
  | some last => (!last.isEmpty && last.all Char.isDigit) || (addressNumber? last).isSome
  | none => false

/-- Whether numbers are an address: one byte each, and the last one all bytes that remain. -/
def areAddress : List Nat → Nat → Bool
  | [], _ => false
  | [last], bytes => last < twoTo (8 * bytes)
  | n :: rest, bytes => 1 < bytes && n < 256 && areAddress rest (bytes - 1)

/-- Whether a domain name is an address of at most four numbers. -/
def isAddress (domain : List Char) : Bool :=
  match (parts domain).mapM addressNumber? with
  | some numbers => areAddress numbers 4
  | none => false

/-- Whether text is a group of one to four hexadecimal digits. -/
def isGroup (cs : List Char) : Bool :=
  !cs.isEmpty && cs.length ≤ 4 && cs.all Text.isHexDigit

/-- Whether text is a decimal byte without a needless zero. -/
def isByte (cs : List Char) : Bool :=
  match cs with
  | ['0'] => true
  | '0' :: _ => false
  | _ =>
    !cs.isEmpty && cs.all Char.isDigit &&
      match Text.number? 10 cs with
      | some n => n < 256
      | none => false

/-- How many groups a piece at the end of an address stands for: two if it is four bytes. -/
def lastSize? (cs : List Char) : Option Nat :=
  let bytes := Text.splitChars '.' cs
  if isGroup cs then some 1
  else if bytes.length = 4 && bytes.all isByte then some 2
  else none

/-- How many groups some text writes; four bytes may stand at its end where that is the end of the address. -/
def groups? (atEnd : Bool) (cs : List Char) : Option Nat :=
  match cs with
  | [] => some 0
  | _ =>
    let pieces := Text.splitChars ':' cs
    match pieces.getLast? with
    | some last =>
      if pieces.dropLast.all isGroup then
        (if atEnd then lastSize? last else if isGroup last then some 1 else none).map
          (pieces.length - 1 + ·)
      else none
    | none => none

/-- The texts before and after the first pair of colons, if there is one. -/
def cutPair : List Char → List Char × Option (List Char)
  | ':' :: ':' :: rest => ([], some rest)
  | c :: rest =>
    let (before, after) := cutPair rest
    (c :: before, after)
  | [] => ([], none)

/-- Whether text is an address of eight groups; a pair of colons stands for at least one of them. -/
def isLongAddress (cs : List Char) : Bool :=
  match cutPair cs with
  | (before, none) => groups? true before == some 8
  | (before, some after) =>
    match groups? false before, groups? true after with
    | some m, some n => m + n ≤ 7
    | _, _ => false

/-- The address between brackets, if text opens with one. -/
def bracketed? : List Char → Option Bool
  | '[' :: rest => some (rest.getLast? == some ']' && isLongAddress rest.dropLast)
  | _ => none

/-- Whether text names the host of a URL with a special scheme. -/
def isSpecial (cs : List Char) : Bool :=
  match bracketed? cs with
  | some ok => ok
  | none =>
    match (Utf8.decode? (Utf8.percentDecode (Utf8.encode cs))).bind Domain.normalize? with
    | none | some [] => false
    | some domain => !endsInNumber domain || isAddress domain

/-- Characters that end or divide the parts of a URL. -/
def isSeparator (c : Char) : Bool :=
  c.toNat = 0 || "\t\n\r #/:<>?@[\\]^|".toList.contains c

/-- Whether text names the host of a URL whose scheme is not special. -/
def isOpaque (cs : List Char) : Bool :=
  match bracketed? cs with
  | some ok => ok
  | none => !cs.any isSeparator

end Host

end Conform
