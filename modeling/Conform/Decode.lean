import Conform.Json.Basic
import Conform.Text.Escaped
import Conform.TypeName

/-!
# Typed readings of JSON values

Reading a value as a type either gives a value of that type or the first
reason why not. A record is read from an object, whose fields are visited in
key order, or from an array, whose items are its fields in declaration order.
-/

namespace Conform

/-- Why a value cannot be read as a type. -/
inductive DecodeError where
  | wrongKind (found : Json) (expected : String)
  | wrongValue (found : Json) (expected : String)
  | wrongLength (length : Nat) (expected : String)
  | missingField (name : String)
  | unknownVariant (name : String) (known : List String)
  | noAlternative (type : String)
  | badName (error : NameError)
  | elementCount (found : Nat)
  | badIdentifier
  | badDate (reason : String)

namespace DecodeError

/-- What a value is called where another was expected. -/
def described : Json → String
  | .null => "null"
  | .bool b => "boolean `" ++ (if b then "true" else "false") ++ "`"
  | .num (.int n) => "integer `" ++ toString n ++ "`"
  | .num (.float x) => "floating point `" ++ x.text ++ "`"
  | .str s => "string " ++ Text.escaped s
  | .arr _ => "sequence"
  | .obj _ => "map"

/-- A list of words as an expectation. -/
def oneOf : List String → String
  | [] => "there are no variants"
  | [a] => "expected `" ++ a ++ "`"
  | [a, b] => "expected `" ++ a ++ "` or `" ++ b ++ "`"
  | words => "expected one of " ++ ", ".intercalate (words.map fun w => "`" ++ w ++ "`")

def message : DecodeError → String
  | wrongKind found expected => "invalid type: " ++ described found ++ ", expected " ++ expected
  | wrongValue found expected => "invalid value: " ++ described found ++ ", expected " ++ expected
  | wrongLength length expected =>
    "invalid length " ++ toString length ++ ", expected " ++ expected
  | missingField name => "missing field `" ++ name ++ "`"
  | unknownVariant name known => "unknown variant `" ++ name ++ "`, " ++ oneOf known
  | noAlternative type => "data did not match any variant of untagged enum " ++ type
  | badName error => error.message
  | elementCount found =>
    "array shape must hold exactly one element type, found " ++ toString found
  | badIdentifier => "UUID parsing failed"
  | badDate reason => reason

end DecodeError

namespace Decode

/-- What every reading gives. -/
abbrev Result (α : Type) := Except DecodeError α

def text : Json → Result String
  | .str s => .ok s
  | v => .error (.wrongKind v "a string")

def flag : Json → Result Bool
  | .bool b => .ok b
  | v => .error (.wrongKind v "a boolean")

/-- A natural number below `2 ^ 64`. -/
def size : Json → Result Nat
  | .num (.int n) => if 0 ≤ n then .ok n.toNat else .error (.wrongValue (.num (.int n)) "usize")
  | v => .error (.wrongKind v "usize")

/-- An integer from `-2 ^ 63` to `2 ^ 63 - 1`. -/
def signed : Json → Result Int
  | .num (.int n) => if n < twoTo 63 then .ok n else .error (.wrongValue (.num (.int n)) "i64")
  | v => .error (.wrongKind v "i64")

/-- A number as the nearest double. -/
def double : Json → Result Double
  | .num n => .ok n.toDouble
  | v => .error (.wrongKind v "f64")

def typeName (v : Json) : Result TypeName := do
  match TypeName.ofText (← text v) with
  | .ok name => .ok name
  | .error e => .error (.badName e)

/-- A value, or nothing where null stands. -/
def optional {α : Type} (read : Json → Result α) : Json → Result (Option α)
  | .null => .ok none
  | v => (read v).map some

def list {α : Type} (read : Json → Result α) : Json → Result (List α)
  | .arr items => items.mapM read
  | v => .error (.wrongKind v "a sequence")

/-- A word out of a list, each standing for a value; or an object from the word to null. -/
def variant {α : Type} (known : List (String × α)) : Json → Result α
  | .str word => find word
  | .obj [(word, content)] => do
    let value ← find word
    match content with
    | .null => .ok value
    | v => .error (.wrongKind v "unit")
  | .obj fields => .error (.wrongValue (.obj fields) "map with a single key")
  | v => .error (.wrongKind v "string or map")
where
  find (word : String) : Result α :=
    match Table.get? word known with
    | some value => .ok value
    | none => .error (.unknownVariant word (Table.keys known))

/-- The type of a record and its fields in declaration order. -/
structure Layout where
  type : String
  fields : List String

/-- How a record was written: with field names, or by position. -/
inductive Written where
  | named
  | positional
  deriving DecidableEq

namespace Layout

/-- What is said of a record that leaves out a field it needs. -/
def missing (layout : Layout) (name : String) : Written → DecodeError
  | .named => .missingField name
  | .positional =>
    .wrongLength (layout.fields.idxOf name)
      ("struct " ++ layout.type ++ " with " ++ toString layout.fields.length ++
        (if layout.fields.length = 1 then " element" else " elements"))

/-- The fields of a record in the order they are visited, and how it was written. -/
def entries (layout : Layout) : Json → Result (List (String × Json) × Written)
  | .obj fields => .ok (fields.filter fun field => layout.fields.contains field.1, .named)
  | .arr items => .ok (layout.fields.zip items, .positional)
  | v => .error (.wrongKind v ("struct " ++ layout.type))

/-- Refuse items beyond the last field. -/
def checkLength (layout : Layout) : Json → Result Unit
  | .arr items =>
    if layout.fields.length < items.length then
      .error (.wrongLength items.length "fewer elements in array")
    else .ok ()
  | _ => .ok ()

/-- Read a record: set its fields one by one, then finish it. -/
def read {α β : Type} (layout : Layout) (start : α) (set : α → String → Json → Result α)
    (finish : α → Written → Result β) (v : Json) : Result β := do
  let (entries, written) ← layout.entries v
  let record ← entries.foldlM (fun record entry => set record entry.1 entry.2) start
  let result ← finish record written
  layout.checkLength v
  .ok result

/-- A needed field. -/
def require {α : Type} (layout : Layout) (name : String) (written : Written) :
    Option α → Result α
  | some value => .ok value
  | none => .error (layout.missing name written)

/-- A field that an object may leave out. -/
def perhaps {α : Type} (layout : Layout) (name : String) (written : Written) :
    Option (Option α) → Result (Option α)
  | some value => .ok value
  | none =>
    match written with
    | .named => .ok none
    | .positional => .error (layout.missing name .positional)

end Layout

end Decode

end Conform
