import Conform.Node
import Conform.Store

/-!
# Lowering

A definition and the shape declared for it become a node. The definition
decides kinds, formats, values and constraints; the declared shape decides
which fields are checked, whether each is required, what null means, and which
named type stands behind a bare object. References are kept by name, so a
recursive type lowers to a finite node.
-/

namespace Conform

/-- What lowering a schema object needs besides it: the declared shape and its location. -/
abbrev Lowering := FieldShape → String → Except CompileError Node

namespace Lower

/-- The keywords that constrain a value, with whether each is set. -/
def constraintKeywords (k : Keywords) : List (String × Bool) :=
  [("minimum", k.minimum.isSome), ("maximum", k.maximum.isSome),
    ("minLength", k.minLength.isSome), ("maxLength", k.maxLength.isSome),
    ("pattern", k.pattern.isSome), ("minItems", k.minItems.isSome),
    ("maxItems", k.maxItems.isSome)]

/-- Refuse every constraint keyword but the allowed ones. -/
def refuseForeign (k : Keywords) (allowed : List String) (kind location : String) :
    Except CompileError Unit :=
  match (constraintKeywords k).find? fun (keyword, isSet) => isSet && !allowed.contains keyword with
  | some (keyword, _) => .error (.notApplicable keyword kind location)
  | none => .ok ()

/-- The strings of an `enum`, repeats dropped. -/
def enumStrings (values : List Json) (location : String) : Except CompileError (List String) :=
  if values.isEmpty then .error (.emptyEnum location)
  else
    values.foldlM (fun strings value =>
      match value with
      | .str s => .ok (if strings.contains s then strings else strings ++ [s])
      | v => .error (.enumNotString v location)) []

/-- A primitive of a kind; the format is the fallback where the keyword is missing. -/
def primitive (k : Keywords) (kind : PrimitiveKind) (fallback : Option Format) (nullable : Bool)
    (location : String) : Except CompileError Node :=
  if k.minItems.isSome then .error (.notApplicable "minItems" kind.keyword location)
  else if k.maxItems.isSome then .error (.notApplicable "maxItems" kind.keyword location)
  else do
    let format := match k.format with
      | some word => Format.ofKeyword? word
      | none => fallback
    let constraints : Constraints :=
      { minimum := k.minimum, maximum := k.maximum, minLength := k.minLength,
        maxLength := k.maxLength, pattern := k.pattern }
    let p ← Primitive.build kind format constraints location
    .ok (Node.of (.primitive p) nullable)

/-- A primitive of the kind a scalar shape declares. -/
def scalar (k : Keywords) (kind : Scalar) (nullable : Bool) (location : String) :
    Except CompileError Node :=
  match kind with
  | .text => primitive k .string none nullable location
  | .number => primitive k .number none nullable location
  | .flag => primitive k .boolean none nullable location
  | .date => primitive k .string (some .dateTime) nullable location

/-- An array whose items are lowered as given. -/
def array (k : Keywords) (element : Lowering) (shape : FieldShape) (nullable : Bool)
    (location : String) : Except CompileError Node := do
  refuseForeign k ["minItems", "maxItems"] "array" location
  let node ← element (shape.element?.getD .unspecified) (location ++ "[]")
  .ok (Node.of (.array node k.minItems k.maxItems) nullable)

/-- Pin the nullability of a field where it is declared. -/
def pin (rule : FieldRule) (node : Node) : NodeField :=
  match rule.nullable with
  | some nullable => ⟨rule.required, { node with nullable, pinned := true }⟩
  | none => ⟨rule.required, node⟩

/-- The declared fields, each a property of the definition. -/
def declaredFields (properties : List (String × Lowering)) (owner : String) :
    TypeFields → Except CompileError (List (String × NodeField))
  | [] => .ok []
  | (name, rule) :: rest =>
    match Table.get? name properties with
    | none => .error (.unknownField owner name)
    | some property => do
      let node ← property rule.shape (owner ++ "." ++ name)
      .ok ((name, pin rule node) :: (← declaredFields properties owner rest))

/-- Every property of the definition as a field. -/
def allFields (k : Keywords) (owner : String) :
    List (String × Lowering) → Except CompileError (List (String × NodeField))
  | [] => .ok []
  | (name, property) :: rest => do
    let node ← property .unspecified (owner ++ "." ++ name)
    .ok ((name, ⟨k.requiredNames.contains name, node⟩) :: (← allFields k owner rest))

/-- The fields of an object: the declared ones if any are declared, else every property. -/
def objectFields (k : Keywords) (properties : List (String × Lowering))
    (declared : Option TypeFields) (owner : String) :
    Except CompileError (List (String × NodeField)) :=
  match declared with
  | some fields => declaredFields properties owner fields
  | none => allFields k owner properties

def object (k : Keywords) (properties : List (String × Lowering)) (declared : Option TypeFields)
    (nullable : Bool) (location : String) : Except CompileError Node := do
  refuseForeign k [] "object" location
  let fields ← objectFields k properties declared location
  .ok (Node.of (.object fields) nullable)

/-- A schema object that says nothing, lowered by the declared shape alone. -/
def shapeAlone : FieldShape → String → Except CompileError Node
  | .unspecified, location => .error (.missingType location)
  | .scalar kind, location => scalar {} kind false location
  | .named name, _ => .ok (Node.of (.reference name) false)
  | .inline fields, location => object {} [] (some fields) false location
  | .array element, location => do
    let node ← shapeAlone element (location ++ "[]")
    .ok (Node.of (.array node none none) false)

/-- What the parts of a schema object lower to. -/
structure Parts where
  keywords : Keywords
  /-- The union branches that are not null-only, and whether one is. -/
  branches : Option (List Lowering × Bool)
  members : Option (List Lowering)
  items : Option Lowering
  properties : Option (List (String × Lowering))

/-- Lower the branches of a union, numbered from an index. -/
def numbered (location : String) : Nat → List Lowering → Except CompileError (List Node)
  | _, [] => .ok []
  | i, branch :: rest => do
    let node ← branch .unspecified (location ++ ".oneOf[" ++ toString i ++ "]")
    .ok (node :: (← numbered location (i + 1) rest))

/-- A union; one branch alone is no union. -/
def union (branches : List Lowering) (nullable : Bool) (shape : FieldShape) (location : String) :
    Except CompileError Node :=
  match branches with
  | [] => .error (.emptyUnion location)
  | [branch] => do .ok ((← branch shape location).orNull nullable)
  | many => do .ok (Node.of (.union (← numbered location 0 many)) nullable)

/-- An `allOf`; only the wrapper around a single member is understood. -/
def wrapper (members : List Lowering) (nullable : Bool) (shape : FieldShape) (location : String) :
    Except CompileError Node :=
  match members with
  | [member] => do .ok ((← member shape location).orNull nullable)
  | many => .error (.severalMembers many.length location)

namespace Parts

def itemsOrShape (p : Parts) : Lowering := p.items.getD shapeAlone

/-- No kind is given: structure decides, then the declared shape. -/
def untyped (p : Parts) (nullable : Bool) (shape : FieldShape) (location : String) :
    Except CompileError Node :=
  if p.items.isSome then array p.keywords p.itemsOrShape shape nullable location
  else
    match p.properties with
    | some properties => object p.keywords properties shape.fields? nullable location
    | none =>
      match shape with
      | .unspecified => .error (.missingType location)
      | .scalar kind => scalar p.keywords kind nullable location
      | .named name => .ok (Node.of (.reference name) nullable)
      | .array _ => array p.keywords p.itemsOrShape shape nullable location
      | .inline fields => object p.keywords [] (some fields) nullable location

/-- A schema object without union and wrapper. -/
def simple (p : Parts) (shape : FieldShape) (location : String) : Except CompileError Node :=
  let k := p.keywords
  let nullable := k.nullableSet || k.listsNull
  let kinds := k.kindList
  let typeBehind := match shape with
    | .named name => if (kinds.isEmpty || kinds == ["object"]) && k.enumValues.isNone then some name else none
    | _ => none
  match typeBehind with
  | some name => .ok (Node.of (.reference name) nullable)
  | none =>
    match k.reference with
    | some reference =>
      match TypeName.ofReference reference with
      | .ok name => .ok (Node.of (.reference name) nullable)
      | .error e => .error (.badReference location e)
    | none =>
      match k.enumValues with
      | some values => do
        refuseForeign k [] "enum" location
        .ok (Node.of (.enum (← enumStrings values location)) nullable)
      | none =>
        match kinds with
        | [] => if k.listsNull then .error (.onlyNull location) else p.untyped nullable shape location
        | ["array"] => array k p.itemsOrShape shape nullable location
        | ["object"] => object k (p.properties.getD []) shape.fields? nullable location
        | [word] =>
          match PrimitiveKind.ofKeyword? word with
          | some kind => primitive k kind none nullable location
          | none => .error (.unknownKind word location)
        | many => .error (.severalKinds many location)

/-- The node of a schema object, from what its parts lower to. -/
def lower (p : Parts) (shape : FieldShape) (location : String) : Except CompileError Node :=
  match p.branches with
  | some (branches, hasNull) =>
    union branches (p.keywords.nullableSet || hasNull) shape location
  | none =>
    match p.members with
    | some members => wrapper members p.keywords.nullableSet shape location
    | none => p.simple shape location

end Parts

end Lower

namespace Definition

mutual

/-- The node of a definition, for a declared shape and a location. -/
def lower : Definition → Lowering
  | ⟨keywords, oneOf, anyOf, allOf, items, properties⟩ => fun shape location =>
    let branches := match oneOf, anyOf with
      | some ds, _ => some (lowerBranches ds, hasNullBranch ds)
      | none, some ds => some (lowerBranches ds, hasNullBranch ds)
      | none, none => none
    let members := match allOf with
      | some ds => some (lowerList ds)
      | none => none
    let items := match items with
      | some d => some (lower d)
      | none => none
    let properties := match properties with
      | some ps => some (lowerTable ps)
      | none => none
    Lower.Parts.lower ⟨keywords, branches, members, items, properties⟩ shape location

/-- What the branches that are not null-only lower to. -/
def lowerBranches : List Definition → List Lowering
  | [] => []
  | d :: rest => if d.isNullOnly then lowerBranches rest else lower d :: lowerBranches rest

def lowerList : List Definition → List Lowering
  | [] => []
  | d :: rest => lower d :: lowerList rest

def lowerTable : List (String × Definition) → List (String × Lowering)
  | [] => []
  | (name, d) :: rest => (name, lower d) :: lowerTable rest

/-- Whether a branch is null-only. -/
def hasNullBranch : List Definition → Bool
  | [] => false
  | d :: rest => d.isNullOnly || hasNullBranch rest

end

end Definition

namespace Store

/-- Whether the fields of a type are checked one by one. -/
def isObject (s : Store) (name : TypeName) (d : Definition) : Bool :=
  d.isObjectLike || ((s.fields? name).isSome && d.isBare)

/-- The node of a named type, referenced from a location. -/
def lower (s : Store) (name : TypeName) (location : String) : Except CompileError Node :=
  match s.definition? name with
  | none => .error (.unknownType name.text location)
  | some d =>
    if s.isObject name d then
      Lower.object d.keywords (Definition.lowerTable (d.properties.getD [])) (s.fields? name)
        d.admitsNull name.text
    else d.lower .unspecified name.text

end Store

end Conform
