import Conform.Json.Basic
import Conform.Text.Blank
import Conform.Text.Utf8

/-!
# Query strings

A query string becomes an object whose leaves are strings. Brackets in a key
lead into nested objects, empty brackets into a list, and a key that comes
again gathers its values into a list.
-/

namespace Conform

namespace Query

/-- A form-encoded text: plus signs are blanks, percent signs write bytes. -/
def decodeChars (cs : List Char) : List Char :=
  Utf8.decodeLossy (Utf8.percentDecode (Utf8.encode (cs.map fun c => if c = '+' then ' ' else c)))

/-- The key and the value of a piece; without an equals sign the value is empty. -/
def readPair (piece : List Char) : List Char × String :=
  let (key, value) := Text.cutChars '=' piece
  (decodeChars key, String.ofList (decodeChars (value.getD [])))

/-- The pairs of a query string in order. -/
def pairs (text : String) : List (List Char × String) :=
  ((Text.splitChars '&' text.toList).filter fun piece => !piece.isEmpty).map readPair

mutual

/-- The segments of a run of brackets that ends the text. -/
def segments? : List Char → Option (List (List Char))
  | [] => some []
  | c :: rest => if c = '[' then inside? [] rest else none

/-- The same inside a bracket; a segment runs to the next closing bracket. -/
def inside? (segment : List Char) : List Char → Option (List (List Char))
  | [] => none
  | c :: rest =>
    if c = ']' then (segments? rest).map (segment.reverse :: ·) else inside? (c :: segment) rest

end

/-- The name before the first bracket and the segments after it; a malformed key is all name. -/
def keyPath (key : List Char) : List Char × List (List Char) :=
  let head := key.takeWhile (· != '[')
  match head, segments? (key.dropWhile (· != '[')) with
  | [], _ => (key, [])
  | _, none => (key, [])
  | _, some segments => (head, segments)

/-- A value added to what its key holds. -/
def gather (value : String) : Option Json → Json
  | none => .str value
  | some (.arr items) => .arr (items ++ [.str value])
  | some previous => .arr [previous, .str value]

/-- A value added to the list that its key holds. -/
def gatherList (value : String) (held : Option Json) : Json :=
  gather value (some (held.getD (.arr [])))

/-- The fields of what a key holds, none if it is no object. -/
def nested (held : Option Json) : List (String × Json) := (held.bind Json.fields?).getD []

/-- Store a value under a name and the segments after it; empty brackets end the way. -/
def insertAt (value : String) :
    List Char → List (List Char) → List (String × Json) → List (String × Json)
  | name, [], fields =>
    let key := String.ofList name
    Table.insert key (gather value (Table.get? key fields)) fields
  | name, [] :: _, fields =>
    let key := String.ofList name
    Table.insert key (gatherList value (Table.get? key fields)) fields
  | name, next :: rest, fields =>
    let key := String.ofList name
    Table.insert key (.obj (insertAt value next rest (nested (Table.get? key fields)))) fields

/-- One pair; a pair without a key does not count. -/
def insertPair (fields : List (String × Json)) : List Char × String → List (String × Json)
  | ([], _) => fields
  | (key, value) => insertAt value (keyPath key).1 (keyPath key).2 fields

/-- The object of a list of pairs. -/
def ofPairs (pairs : List (List Char × String)) : Json := .obj (pairs.foldl insertPair [])

/-- The object that a query string writes. -/
def read (text : String) : Json := ofPairs (pairs text)

end Query

end Conform
