import Conform.Decode

/-!
# Failures to load a document

Why a schema document or a field table could not be loaded.
-/

namespace Conform

inductive DocumentError where
  /-- A file could not be read. -/
  | unreadable (path reason : String)
  /-- A text is not JSON. -/
  | notJson (origin : String)
  /-- A text is not YAML. -/
  | notYaml (origin : String)
  /-- A schema object has the wrong structure. -/
  | wrongStructure (origin : String) (error : DecodeError)
  /-- The document root is no object. -/
  | rootNotObject
  | schemasNotObject
  | pathsNotObject
  /-- A component key is no type name. -/
  | badComponent (error : NameError)
  /-- The root of a field table is no object. -/
  | tableNotObject
  /-- A key of a field table is no type name. -/
  | badOwner (owner : String) (error : NameError)
  /-- The fields of a type have the wrong structure. -/
  | badFields (owner : String) (error : DecodeError)

namespace DocumentError

/-- The sentence for each failure; the texts of the two readers are not part of it. -/
def message : DocumentError → String
  | unreadable path reason => "cannot read '" ++ path ++ "': " ++ reason
  | notJson origin => "invalid JSON in " ++ origin
  | notYaml origin => "invalid YAML in " ++ origin
  | wrongStructure origin error => "invalid JSON in " ++ origin ++ ": " ++ error.message
  | rootNotObject => malformed "document root must be an object"
  | schemasNotObject => malformed "components.schemas must be an object"
  | pathsNotObject => malformed "paths must be an object"
  | badComponent error => malformed error.message
  | tableNotObject => fields "(root)" "metadata root must be an object"
  | badOwner owner error => fields owner error.message
  | badFields owner error => fields owner error.message
where
  malformed (reason : String) : String := "malformed schema document: " ++ reason
  fields (owner reason : String) : String :=
    "malformed field metadata for '" ++ owner ++ "': " ++ reason

end DocumentError

end Conform
