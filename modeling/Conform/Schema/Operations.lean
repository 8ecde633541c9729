import Conform.MediaType
import Conform.Schema.DocumentError
import Conform.Schema.Target

/-!
# Operations

The targets of the JSON request bodies and responses that a document declares
for each method and path template. A response is looked up by its exact
status, then by its range such as `2XX`, then as the default.
-/

namespace Conform

/-- What is declared for one operation; responses by status in upper case. -/
structure Operation where
  requestBody : Option Target
  responses : List (String × Target)

/-- A method in lower case and a path template. -/
structure OperationKey where
  method : String
  template : String
  deriving DecidableEq, Repr

namespace OperationKey

instance : LT OperationKey :=
  ⟨fun a b => a.method < b.method ∨ (a.method = b.method ∧ a.template < b.template)⟩

instance : DecidableLT OperationKey := fun a b =>
  inferInstanceAs (Decidable (a.method < b.method ∨ (a.method = b.method ∧ a.template < b.template)))

/-- How messages call an operation. -/
def label (k : OperationKey) : String := Text.upperAscii k.method ++ " " ++ k.template

end OperationKey

/-- The operations of a document. -/
structure Operations where
  entries : List (OperationKey × Operation)

namespace Operations

def empty : Operations := ⟨[]⟩

/-- The methods an operation can be declared for, in the order they are read. -/
def methods : List String :=
  ["get", "put", "post", "delete", "options", "head", "patch", "trace"]

/-- The schema of the first JSON media type of a request body or response. -/
def jsonSchema? (holder : Json) : Option Json := do
  let content ← (← holder.get? "content").fields?
  let (_, media) ← content.find? fun entry => MediaType.saysJson entry.1
  media.get? "schema"

/-- The target of a schema declared by an operation. -/
def readTarget (origin : String) (schema : Json) : Except DocumentError Target :=
  match Definition.decode schema with
  | .ok d => .ok (Target.ofDefinition d)
  | .error e => .error (.wrongStructure origin e)

def readOperation (origin : String) (operation : Json) : Except DocumentError Operation := do
  let requestBody ← ((operation.get? "requestBody").bind jsonSchema?).mapM (readTarget origin)
  let declared := ((operation.get? "responses").bind Json.fields?).getD []
  let responses ← declared.foldlM (fun table (status, response) => do
    match jsonSchema? response with
    | some schema => .ok (Table.insert (Text.upperAscii status) (← readTarget origin schema) table)
    | none => .ok table) []
  .ok { requestBody, responses }

/-- Index the operations of one path template. -/
def readPath (template : String) (item : Json) (table : List (OperationKey × Operation)) :
    Except DocumentError (List (OperationKey × Operation)) :=
  methods.foldlM (fun table method => do
    match item.get? method with
    | some operation =>
      let key : OperationKey := ⟨method, template⟩
      .ok (Table.insert key (← readOperation key.label operation) table)
    | none => .ok table) table

/-- Index the value of `paths`. -/
def ofPaths : Json → Except DocumentError Operations
  | .obj paths => do
    .ok ⟨← paths.foldlM (fun table (template, item) => readPath template item table) []⟩
  | _ => .error .pathsNotObject

def size (ops : Operations) : Nat := ops.entries.length

/-- What is declared for a method, in any case, and a template. -/
def find? (ops : Operations) (method template : String) : Option Operation :=
  Table.get? ⟨Text.lowerAscii method, template⟩ ops.entries

/-- The target of a response: by status, else by range, else the default. -/
def responseTarget? (ops : Operations) (method template : String) (status : Nat) :
    Option Target := do
  let operation ← ops.find? method template
  let declared key := Table.get? key operation.responses
  (declared (toString status)).or
    ((declared (toString (status / 100) ++ "XX")).or (declared "DEFAULT"))

/-- Every target with the label of its place. -/
def targets (ops : Operations) : List (String × Target) :=
  ops.entries.flatMap fun (key, operation) =>
    (operation.requestBody.map fun t => (key.label ++ " request body", t)).toList ++
      operation.responses.map fun (status, t) => (key.label ++ " " ++ status, t)

end Operations

end Conform
