import Conform.Schema.DocumentError

/-!
# Field tables

For each named type the fields to validate: whether each is required, whether
it may be null regardless of the document, and the shape its author declared.
-/

namespace Conform

/-- The scalar kinds a field can be declared with. -/
inductive Scalar where
  | text
  | number
  | flag
  | date
  deriving DecidableEq, Repr

namespace Scalar

def name : Scalar → String
  | text => "String"
  | number => "Number"
  | flag => "Boolean"
  | date => "Date"

end Scalar

mutual

/-- The declared shape of a field. -/
inductive FieldShape where
  /-- The document alone describes the field. -/
  | unspecified
  | scalar (kind : Scalar)
  | named (name : TypeName)
  /-- An object with declared fields of its own. -/
  | inline (fields : List (String × FieldRule))
  | array (element : FieldShape)

/-- What is declared for one field. -/
structure FieldRule where
  required : Bool
  /-- Overrides whether the field may be null. -/
  nullable : Option Bool
  shape : FieldShape

end

/-- What is declared for the fields of a type. -/
abbrev TypeFields := List (String × FieldRule)

namespace FieldShape

/-- The shape of the items of an array shape. -/
def element? : FieldShape → Option FieldShape
  | array s => some s
  | _ => none

/-- The declared fields of an inline shape. -/
def fields? : FieldShape → Option TypeFields
  | inline fields => some fields
  | _ => none

/-- How a shape is shown. -/
def label : FieldShape → String
  | unspecified => "Object"
  | scalar kind => kind.name
  | named name => name.text
  | inline _ => "\x7b...\x7d"
  | array s => "[" ++ s.label ++ "]"

/-- The shape a word declares; a word that is no kind names a type. -/
def ofWord (word : String) : Decode.Result FieldShape :=
  match word with
  | "String" | "string" => .ok (scalar .text)
  | "Number" | "number" => .ok (scalar .number)
  | "Boolean" | "boolean" => .ok (scalar .flag)
  | "Date" => .ok (scalar .date)
  | "Object" | "object" => .ok unspecified
  | _ =>
    match TypeName.ofText word with
    | .ok name => .ok (named name)
    | .error e => .error (.badName e)

end FieldShape

namespace FieldRule

/-- A required field of any shape. -/
def standard : FieldRule := ⟨true, none, .unspecified⟩

def layout : Decode.Layout := ⟨"FieldMetadata", ["required", "nullable", "type"]⟩

end FieldRule

mutual

/-- Read a shape: a word, a list of one shape, or an object of fields. -/
def FieldShape.decode : Json → Decode.Result FieldShape
  | .str word => FieldShape.ofWord word
  | .arr items =>
    match decodeShapes items with
    | .ok [s] => .ok (.array s)
    | .ok shapes => .error (.elementCount shapes.length)
    | .error _ => .error (.noAlternative "RawShape")
  | .obj fields =>
    match decodeRules fields with
    | .ok rules => .ok (.inline rules)
    | .error _ => .error (.noAlternative "RawShape")
  | _ => .error (.noAlternative "RawShape")

def decodeShapes : List Json → Decode.Result (List FieldShape)
  | [] => .ok []
  | v :: rest => do
    let s ← FieldShape.decode v
    .ok (s :: (← decodeShapes rest))

/-- Read the fields of a type or of an inline shape. -/
def decodeRules : List (String × Json) → Decode.Result TypeFields
  | [] => .ok []
  | (name, v) :: rest => do
    let rule ← FieldRule.decode v
    .ok ((name, rule) :: (← decodeRules rest))

/-- Read what is declared for one field. -/
def FieldRule.decode : Json → Decode.Result FieldRule
  | .obj fields => decodeRuleFields fields .standard
  | .arr items => do
    let rule ← decodeRuleItems FieldRule.layout.fields items .standard
    FieldRule.layout.checkLength (.arr items)
    .ok rule
  | v => .error (.wrongKind v "struct FieldMetadata")

def decodeRuleFields : List (String × Json) → FieldRule → Decode.Result FieldRule
  | [], rule => .ok rule
  | (name, v) :: rest, rule =>
    match name with
    | "required" => do decodeRuleFields rest { rule with required := ← Decode.flag v }
    | "nullable" => do
      decodeRuleFields rest { rule with nullable := ← Decode.optional Decode.flag v }
    | "type" => do decodeRuleFields rest { rule with shape := ← FieldShape.decode v }
    | _ => decodeRuleFields rest rule

def decodeRuleItems : List String → List Json → FieldRule → Decode.Result FieldRule
  | name :: names, v :: rest, rule =>
    match name with
    | "required" => do decodeRuleItems names rest { rule with required := ← Decode.flag v }
    | "nullable" => do
      decodeRuleItems names rest { rule with nullable := ← Decode.optional Decode.flag v }
    | _ => do decodeRuleItems names rest { rule with shape := ← FieldShape.decode v }
  | _, _, rule => .ok rule

end

namespace TypeFields

/-- Read the fields of a type. -/
def decode : Json → Decode.Result TypeFields
  | .obj fields => decodeRules fields
  | v => .error (.wrongKind v "a map")

end TypeFields

/-- The declared fields of every type with an entry. -/
structure FieldTable where
  entries : List (TypeName × TypeFields)

namespace FieldTable

def empty : FieldTable := ⟨[]⟩

/-- Declare the fields of a type, replacing an earlier declaration. -/
def declare (table : FieldTable) (name : TypeName) (fields : TypeFields) : FieldTable :=
  ⟨Table.insert name fields table.entries⟩

/-- The fields declared for a type. -/
def fields? (table : FieldTable) (name : TypeName) : Option TypeFields :=
  Table.get? name table.entries

def names (table : FieldTable) : List TypeName := Table.keys table.entries

def size (table : FieldTable) : Nat := table.entries.length

/-- The table that a value tree stands for. -/
def ofJson : Json → Except DocumentError FieldTable
  | .obj root =>
    root.foldlM (fun table (key, raw) => do
      match TypeName.ofText key with
      | .error e => .error (.badOwner key e)
      | .ok name =>
        match TypeFields.decode raw with
        | .error e => .error (.badFields key e)
        | .ok fields => .ok (table.declare name fields)) empty
  | _ => .error .tableNotObject

end FieldTable

end Conform
