import Conform.Decode

/-!
# Definitions

One schema object of a document: a named type, a property, an array item or a
branch of a union. It is its scalar keywords together with its subschemas.
Keywords outside this vocabulary are ignored, and a null keyword is not set.
-/

namespace Conform

/-- The keyword `type`: one kind, or a list of kinds. -/
inductive Kinds where
  | one (kind : String)
  | many (kinds : List String)
  deriving DecidableEq, Repr

namespace Kinds

def toList : Kinds → List String
  | one kind => [kind]
  | many kinds => kinds

/-- The kinds other than null. -/
def nonNull (k : Kinds) : List String := k.toList.filter (· != "null")

/-- Whether null is listed. -/
def hasNull (k : Kinds) : Bool := k.toList.contains "null"

def decode (v : Json) : Decode.Result Kinds :=
  match v, Decode.list Decode.text v with
  | .str kind, _ => .ok (one kind)
  | _, .ok kinds => .ok (many kinds)
  | _, .error _ => .error (.noAlternative "TypeSpec")

def toJson : Kinds → Json
  | one kind => .str kind
  | many kinds => .arr (kinds.map .str)

end Kinds

/-- The keyword `required`: names of properties, or a flag that has no meaning here. -/
inductive Requirement where
  | names (names : List String)
  | flag (value : Bool)
  deriving DecidableEq, Repr

namespace Requirement

def decode (v : Json) : Decode.Result Requirement :=
  match v, Decode.list Decode.text v with
  | .bool b, _ => .ok (flag b)
  | _, .ok ns => .ok (names ns)
  | _, .error _ => .error (.noAlternative "RequiredSpec")

def toJson : Requirement → Json
  | names ns => .arr (ns.map .str)
  | flag b => .bool b

end Requirement

/-- The keywords of a definition that hold no subschema. -/
structure Keywords where
  kinds : Option Kinds := none
  format : Option String := none
  enumValues : Option (List Json) := none
  reference : Option String := none
  minimum : Option Double := none
  maximum : Option Double := none
  minLength : Option Nat := none
  maxLength : Option Nat := none
  pattern : Option String := none
  minItems : Option Nat := none
  maxItems : Option Nat := none
  nullable : Option Bool := none
  required : Option Requirement := none
  deriving DecidableEq

namespace Keywords

/-- Set the keyword with a name; a null value leaves it unset. -/
def set (k : Keywords) (name : String) (v : Json) : Decode.Result Keywords :=
  let read {α : Type} (f : Json → Decode.Result α) := Decode.optional f v
  match name with
  | "type" => do .ok { k with kinds := ← read Kinds.decode }
  | "format" => do .ok { k with format := ← read Decode.text }
  | "enum" => do .ok { k with enumValues := ← read (Decode.list .ok) }
  | "$ref" => do .ok { k with reference := ← read Decode.text }
  | "minimum" => do .ok { k with minimum := ← read Decode.double }
  | "maximum" => do .ok { k with maximum := ← read Decode.double }
  | "minLength" => do .ok { k with minLength := ← read Decode.size }
  | "maxLength" => do .ok { k with maxLength := ← read Decode.size }
  | "pattern" => do .ok { k with pattern := ← read Decode.text }
  | "minItems" => do .ok { k with minItems := ← read Decode.size }
  | "maxItems" => do .ok { k with maxItems := ← read Decode.size }
  | "nullable" => do .ok { k with nullable := ← read Decode.flag }
  | "required" => do .ok { k with required := ← read Requirement.decode }
  | _ => .ok k

/-- The keywords that are set, as members of an object. -/
def members (k : Keywords) : List (String × Json) :=
  [("type", k.kinds.map Kinds.toJson),
    ("format", k.format.map .str),
    ("enum", k.enumValues.map .arr),
    ("$ref", k.reference.map .str),
    ("minimum", k.minimum.map fun x => .num (.float x)),
    ("maximum", k.maximum.map fun x => .num (.float x)),
    ("minLength", k.minLength.map .ofNat),
    ("maxLength", k.maxLength.map .ofNat),
    ("pattern", k.pattern.map .str),
    ("minItems", k.minItems.map .ofNat),
    ("maxItems", k.maxItems.map .ofNat),
    ("nullable", k.nullable.map .bool),
    ("required", k.required.map Requirement.toJson)].filterMap
      fun (name, value) => value.map (name, ·)

/-- The listed kinds other than null; none without the keyword. -/
def kindList (k : Keywords) : List String :=
  match k.kinds with
  | some kinds => kinds.nonNull
  | none => []

/-- Whether the kinds list null. -/
def listsNull (k : Keywords) : Bool :=
  match k.kinds with
  | some kinds => kinds.hasNull
  | none => false

/-- Whether the keyword `nullable` is set to true. -/
def nullableSet (k : Keywords) : Bool := k.nullable.getD false

/-- Names listed in `required`; a flag lists none. -/
def requiredNames (k : Keywords) : List String :=
  match k.required with
  | some (.names names) => names
  | _ => []

end Keywords

/-- One schema object. -/
structure Definition where
  keywords : Keywords := {}
  oneOf : Option (List Definition) := none
  anyOf : Option (List Definition) := none
  allOf : Option (List Definition) := none
  items : Option Definition := none
  properties : Option (List (String × Definition)) := none

namespace Definition

/-- The schema object that says nothing. -/
def empty : Definition := {}

/-- Whether null is all it admits by kind. -/
def isNullOnly (d : Definition) : Bool :=
  d.keywords.listsNull && d.keywords.kindList.isEmpty

/-- Whether it describes an object with declared properties. -/
def isObjectLike (d : Definition) : Bool :=
  d.properties.isSome || d.keywords.kindList == ["object"]

/-- Whether it lists a property as required. -/
def requires (d : Definition) (name : String) : Bool :=
  d.keywords.requiredNames.contains name

/-- The declared property with a name. -/
def property? (d : Definition) (name : String) : Option Definition :=
  d.properties.bind (Table.get? name)

/-- The union branches: `oneOf`, or `anyOf` where that is missing. -/
def branches? (d : Definition) : Option (List Definition) := d.oneOf.or d.anyOf

/-- Whether neither a kind nor another structural keyword is set. -/
def isBare (d : Definition) : Bool :=
  d.keywords.kinds.isNone && d.keywords.reference.isNone && d.keywords.enumValues.isNone &&
    d.oneOf.isNone && d.anyOf.isNone && d.allOf.isNone && d.items.isNone

/-- Whether null is admitted by `nullable` or by the list of kinds. -/
def admitsNull (d : Definition) : Bool :=
  d.keywords.nullableSet || d.keywords.listsNull

def layout : Decode.Layout :=
  ⟨"PropertySchema",
    ["type", "format", "enum", "oneOf", "anyOf", "allOf", "$ref", "items", "minimum", "maximum",
      "minLength", "maxLength", "pattern", "minItems", "maxItems", "nullable", "properties",
      "required"]⟩

/-- What is said of a value where a definition was expected. -/
def notRecord (v : Json) : DecodeError := .wrongKind v "struct PropertySchema"

mutual

/-- Read a definition from an object, or from an array of its keywords in order. -/
def decode : Json → Decode.Result Definition
  | .obj fields => decodeFields fields {}
  | .arr items => do
    let d ← decodeItems layout.fields items {}
    layout.checkLength (.arr items)
    .ok d
  | v => .error (notRecord v)

def decodeFields : List (String × Json) → Definition → Decode.Result Definition
  | [], d => .ok d
  | (name, v) :: rest, d => do decodeFields rest (← decodeField d name v)

def decodeItems : List String → List Json → Definition → Decode.Result Definition
  | name :: names, v :: rest, d => do decodeItems names rest (← decodeField d name v)
  | _, _, d => .ok d

/-- Set the keyword with a name. -/
def decodeField (d : Definition) (name : String) : Json → Decode.Result Definition
  | .null => .ok d
  | .arr items =>
    match name with
    | "oneOf" => do .ok { d with oneOf := some (← decodeList items) }
    | "anyOf" => do .ok { d with anyOf := some (← decodeList items) }
    | "allOf" => do .ok { d with allOf := some (← decodeList items) }
    | "items" => do
      let item ← decodeItems layout.fields items {}
      layout.checkLength (.arr items)
      .ok { d with items := some item }
    | "properties" => .error (.wrongKind (.arr items) "a map")
    | _ => do .ok { d with keywords := ← d.keywords.set name (.arr items) }
  | .obj fields =>
    match name with
    | "oneOf" | "anyOf" | "allOf" => .error (.wrongKind (.obj fields) "a sequence")
    | "items" => do .ok { d with items := some (← decodeFields fields {}) }
    | "properties" => do .ok { d with properties := some (← decodeTable fields) }
    | _ => do .ok { d with keywords := ← d.keywords.set name (.obj fields) }
  | v =>
    match name with
    | "oneOf" | "anyOf" | "allOf" => .error (.wrongKind v "a sequence")
    | "items" => .error (notRecord v)
    | "properties" => .error (.wrongKind v "a map")
    | _ => do .ok { d with keywords := ← d.keywords.set name v }

def decodeList : List Json → Decode.Result (List Definition)
  | [] => .ok []
  | v :: rest => do
    let d ← decode v
    .ok (d :: (← decodeList rest))

def decodeTable : List (String × Json) → Decode.Result (List (String × Definition))
  | [] => .ok []
  | (name, v) :: rest => do
    let d ← decode v
    .ok ((name, d) :: (← decodeTable rest))

end

mutual

/-- The object of the keywords that are set. -/
def toJson : Definition → Json
  | ⟨keywords, oneOf, anyOf, allOf, items, properties⟩ =>
    .object (keywords.members ++
      (match oneOf with | some ds => [("oneOf", .arr (toJsonList ds))] | none => []) ++
      (match anyOf with | some ds => [("anyOf", .arr (toJsonList ds))] | none => []) ++
      (match allOf with | some ds => [("allOf", .arr (toJsonList ds))] | none => []) ++
      (match items with | some d => [("items", d.toJson)] | none => []) ++
      (match properties with | some ps => [("properties", .obj (toJsonTable ps))] | none => []))

def toJsonList : List Definition → List Json
  | [] => []
  | d :: rest => d.toJson :: toJsonList rest

def toJsonTable : List (String × Definition) → List (String × Json)
  | [] => []
  | (name, d) :: rest => (name, d.toJson) :: toJsonTable rest

end

end Definition

end Conform
