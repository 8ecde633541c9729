import Conform.Json.Printer
import Conform.Schema.Definition

/-!
# Nodes

The closed vocabulary of shapes that compilation works on. Which constraint
may stand on which primitive kind is settled when a primitive is built, so a
pattern on a number is an error and not a check that never fires.
-/

namespace Conform

/-- Why a store's types cannot be compiled. -/
inductive CompileError where
  | unknownType (name location : String)
  | unknownField (owner field : String)
  | unknownKind (kind location : String)
  | missingType (location : String)
  | notApplicable (constraint kind location : String)
  | invalidPattern (pattern location : String)
  | emptyEnum (location : String)
  | enumNotString (value : Json) (location : String)
  | emptyUnion (location : String)
  | severalMembers (count : Nat) (location : String)
  | onlyNull (location : String)
  | severalKinds (kinds : List String) (location : String)
  | badReference (location : String) (error : NameError)
  deriving DecidableEq

namespace CompileError

/-- The sentence for each failure; what a pattern's reader says is not part of it. -/
def message : CompileError → String
  | unknownType name location => "unknown type '" ++ name ++ "' referenced from " ++ location
  | unknownField owner field =>
    "field '" ++ field ++ "' of " ++ owner ++
      " is declared in the field metadata but missing from the schema document"
  | unknownKind kind location => "unknown primitive kind '" ++ kind ++ "' at " ++ location
  | missingType location => "no type information at " ++ location
  | notApplicable constraint kind location =>
    "constraint '" ++ constraint ++ "' does not apply to " ++ kind ++ " at " ++ location
  | invalidPattern pattern location => "invalid pattern '" ++ pattern ++ "' at " ++ location
  | emptyEnum location => enumMessage location "enum has no values"
  | enumNotString value location =>
    enumMessage location ("enum value " ++ value.compact ++ " is not a string")
  | emptyUnion location => unsupported location "union without a non-null branch"
  | severalMembers count location =>
    unsupported location ("allOf with " ++ toString count ++ " members")
  | onlyNull location => unsupported location "schema admitting only null"
  | severalKinds kinds location =>
    unsupported location ("multiple types " ++ ", ".intercalate kinds)
  | badReference location error => "invalid reference at " ++ location ++ ": " ++ error.message
where
  enumMessage (location reason : String) : String :=
    "invalid enum at " ++ location ++ ": " ++ reason
  unsupported (location feature : String) : String :=
    "unsupported schema construct at " ++ location ++ ": " ++ feature

end CompileError

inductive PrimitiveKind where
  | string
  | number
  | integer
  | boolean
  deriving DecidableEq, Repr

namespace PrimitiveKind

def keyword : PrimitiveKind → String
  | string => "string"
  | number => "number"
  | integer => "integer"
  | boolean => "boolean"

def ofKeyword? (word : String) : Option PrimitiveKind :=
  [string, number, integer, boolean].find? fun k => k.keyword == word

def isNumeric : PrimitiveKind → Bool
  | number | integer => true
  | string | boolean => false

end PrimitiveKind

/-- The formats that are checked. -/
inductive Format where
  | dateTime
  | date
  | email
  | url
  | uuid
  deriving DecidableEq, Repr

namespace Format

def keyword : Format → String
  | dateTime => "date-time"
  | date => "date"
  | email => "email"
  | url => "url"
  | uuid => "uuid"

/-- The format a keyword stands for; any other keyword carries no check. -/
def ofKeyword? (word : String) : Option Format :=
  if word = "uri" then some url
  else [dateTime, date, email, url, uuid].find? fun f => f.keyword == word

end Format

/-- The constraints of a primitive; bounds and lengths are inclusive. -/
structure Constraints where
  minimum : Option Double := none
  maximum : Option Double := none
  minLength : Option Nat := none
  maxLength : Option Nat := none
  pattern : Option String := none
  deriving DecidableEq

namespace Constraints

def isEmpty (c : Constraints) : Bool := c == {}

/-- The first constraint that may not stand on a kind. -/
def misplaced? (c : Constraints) (kind : PrimitiveKind) : Option String :=
  let text := kind == .string
  [("minimum", c.minimum.isSome && !kind.isNumeric),
    ("maximum", c.maximum.isSome && !kind.isNumeric),
    ("minLength", c.minLength.isSome && !text),
    ("maxLength", c.maxLength.isSome && !text),
    ("pattern", c.pattern.isSome && !text)].findSome? fun (keyword, misplaced) =>
      if misplaced then some keyword else none

end Constraints

/-- A primitive; `Primitive.build` only gives those whose constraints suit the kind. -/
structure Primitive where
  kind : PrimitiveKind
  format : Option Format := none
  constraints : Constraints := {}
  deriving DecidableEq

namespace Primitive

/-- A primitive without format and constraints. -/
def plain (kind : PrimitiveKind) : Primitive := { kind }

/-- The primitive, unless a constraint or the format may not stand on its kind. -/
def build (kind : PrimitiveKind) (format : Option Format) (constraints : Constraints)
    (location : String) : Except CompileError Primitive :=
  match constraints.misplaced? kind with
  | some keyword => .error (.notApplicable keyword kind.keyword location)
  | none =>
    match format with
    | some f =>
      if kind = .string then .ok { kind, format, constraints }
      else
        .error (.notApplicable "format"
          (kind.keyword ++ " (format " ++ f.keyword ++ ")") location)
    | none => .ok { kind, format, constraints }

end Primitive

mutual

/-- A shape and whether null is accepted beside it. -/
structure Node where
  shape : NodeShape
  nullable : Bool
  /-- Nullability was declared for the field; a reference keeps it as it is. -/
  pinned : Bool

inductive NodeShape where
  | primitive (p : Primitive)
  | enum (values : List String)
  /-- At least two alternatives; the first that accepts decides. -/
  | union (branches : List Node)
  | array (element : Node) (minItems maxItems : Option Nat)
  | object (fields : List (String × NodeField))
  /-- A named type, looked up when it is compiled. -/
  | reference (name : TypeName)

/-- A property of an object node. -/
structure NodeField where
  required : Bool
  node : Node

end

namespace Node

/-- A node whose nullability is not pinned. -/
def of (shape : NodeShape) (nullable : Bool) : Node := ⟨shape, nullable, false⟩

/-- The node, null accepted as well where asked. -/
def orNull (node : Node) (nullable : Bool) : Node :=
  { node with nullable := nullable || node.nullable }

end Node

end Conform
