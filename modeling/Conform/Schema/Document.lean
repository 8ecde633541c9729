import Conform.Schema.Operations

/-!
# Schema documents

Named definitions and the operations around them. A document is an OpenAPI
object, or a bare object from type names to definitions.
-/

namespace Conform

structure Document where
  definitions : List (TypeName × Definition)
  operations : Operations

namespace Document

def empty : Document := ⟨[], Operations.empty⟩

/-- The keys that mark an OpenAPI object. -/
def markers : List String := ["openapi", "swagger", "components", "paths"]

/-- The object that holds the definitions. -/
def rawSchemas (root : List (String × Json)) : Except DocumentError (List (String × Json)) :=
  match (Table.get? "components" root).bind (Json.get? "schemas") with
  | some (.obj schemas) => .ok schemas
  | some _ => .error .schemasNotObject
  | none => .ok []

def readDefinitions (schemas : List (String × Json)) :
    Except DocumentError (List (TypeName × Definition)) :=
  schemas.foldlM (fun table (key, raw) => do
    match TypeName.ofText key with
    | .error e => .error (.badComponent e)
    | .ok name =>
      match Definition.decode raw with
      | .error e => .error (.wrongStructure ("components.schemas." ++ key) e)
      | .ok d => .ok (Table.insert name d table)) []

/-- The document that a value tree stands for. -/
def ofJson : Json → Except DocumentError Document
  | .obj root => do
    if markers.any fun key => Table.contains key root then
      let definitions ← readDefinitions (← rawSchemas root)
      let operations ← match Table.get? "paths" root with
        | some paths => Operations.ofPaths paths
        | none => .ok Operations.empty
      .ok { definitions, operations }
    else
      .ok { definitions := ← readDefinitions root, operations := Operations.empty }
  | _ => .error .rootNotObject

/-- The definition of a name. -/
def definition? (doc : Document) (name : TypeName) : Option Definition :=
  Table.get? name doc.definitions

def names (doc : Document) : List TypeName := Table.keys doc.definitions

def size (doc : Document) : Nat := doc.definitions.length

end Document

end Conform
