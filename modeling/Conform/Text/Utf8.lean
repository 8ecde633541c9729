/-!
# UTF-8

Characters as bytes, and bytes as characters. Bytes that begin no character
read as one replacement character for each longest piece of a character.
-/

namespace Conform

namespace Utf8

/-- The bytes of a character. -/
def encodeChar (c : Char) : List Nat :=
  let n := c.toNat
  if n < 0x80 then [n]
  else if n < 0x800 then [0xC0 + n / 0x40, 0x80 + n % 0x40]
  else if n < 0x10000 then [0xE0 + n / 0x1000, 0x80 + n / 0x40 % 0x40, 0x80 + n % 0x40]
  else
    [0xF0 + n / 0x40000, 0x80 + n / 0x1000 % 0x40, 0x80 + n / 0x40 % 0x40, 0x80 + n % 0x40]

def encode (cs : List Char) : List Nat := cs.flatMap encodeChar

/-- What is owed inside a character: how many bytes, the bounds of the next, the value so far. -/
structure Pending where
  count : Nat
  low : Nat
  high : Nat
  value : Nat

def replacement : Char := Char.ofNat 0xFFFD

/-- The state of decoding: characters so far, last first, whether all were whole, what is owed. -/
structure Decoding where
  done : List Char := []
  clean : Bool := true
  pending : Option Pending := none

namespace Decoding

def broken (d : Decoding) : Decoding :=
  { d with done := replacement :: d.done, clean := false, pending := none }

/-- A byte that begins a character. -/
def first (d : Decoding) (b : Nat) : Decoding :=
  let owe (count low high value : Nat) : Decoding :=
    { d with pending := some ⟨count, low, high, value⟩ }
  if b < 0x80 then { d with done := Char.ofNat b :: d.done }
  else if 0xC2 ≤ b && b ≤ 0xDF then owe 1 0x80 0xBF (b - 0xC0)
  else if b = 0xE0 then owe 2 0xA0 0xBF 0
  else if b = 0xED then owe 2 0x80 0x9F 0xD
  else if 0xE1 ≤ b && b ≤ 0xEF then owe 2 0x80 0xBF (b - 0xE0)
  else if b = 0xF0 then owe 3 0x90 0xBF 0
  else if 0xF1 ≤ b && b ≤ 0xF3 then owe 3 0x80 0xBF (b - 0xF0)
  else if b = 0xF4 then owe 3 0x80 0x8F 4
  else d.broken

def byte (d : Decoding) (b : Nat) : Decoding :=
  match d.pending with
  | none => d.first b
  | some p =>
    if p.low ≤ b && b ≤ p.high then
      let value := p.value * 0x40 + (b - 0x80)
      if p.count = 1 then { d with done := Char.ofNat value :: d.done, pending := none }
      else { d with pending := some ⟨p.count - 1, 0x80, 0xBF, value⟩ }
    else d.broken.first b

def finish (d : Decoding) : Decoding :=
  if d.pending.isSome then d.broken else d

end Decoding

def decoding (bytes : List Nat) : Decoding := (bytes.foldl Decoding.byte {}).finish

/-- The characters of some bytes, broken pieces replaced. -/
def decodeLossy (bytes : List Nat) : List Char := (decoding bytes).done.reverse

/-- The characters of some bytes, if they are whole. -/
def decode? (bytes : List Nat) : Option (List Char) :=
  let d := decoding bytes
  if d.clean then some d.done.reverse else none

/-- The characters that bytes write from a place on, up to the first bytes that write none. -/
def startFrom (bytes : ByteArray) : Nat → Nat → List Char
  | 0, _ => []
  | fuel + 1, place =>
    match bytes.utf8DecodeChar? place with
    | some c => c :: startFrom bytes fuel (place + c.utf8Size)
    | none => []

/-- The characters at the start of some bytes; each takes at least one of them. -/
def start (bytes : ByteArray) : List Char := startFrom bytes bytes.size 0

/-- The value of a hexadecimal digit given as a byte. -/
def hexDigit? (b : Nat) : Option Nat :=
  if 48 ≤ b && b ≤ 57 then some (b - 48)
  else if 65 ≤ b && b ≤ 70 then some (b - 55)
  else if 97 ≤ b && b ≤ 102 then some (b - 87)
  else none

/-- Percent signs with two hexadecimal digits replaced by the byte they write. -/
def percentDecode : List Nat → List Nat
  | [] => []
  | 37 :: a :: b :: rest =>
    match hexDigit? a, hexDigit? b with
    | some high, some low => (16 * high + low) :: percentDecode rest
    | _, _ => 37 :: percentDecode (a :: b :: rest)
  | b :: rest => b :: percentDecode rest

end Utf8

end Conform
