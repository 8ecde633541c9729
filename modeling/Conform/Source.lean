import Conform.Json.Reader
import Conform.Schema.DocumentError
import Conform.Yaml.Reader

/-!
# Sources

Texts of documents, tables and values: JSON, or YAML where the file's name
says so.
-/

namespace Conform

inductive SourceFormat where
  | json
  | yaml
  deriving DecidableEq, Repr

namespace SourceFormat

/-- The last component of a path, separators at its end dropped. -/
def fileName (path : String) : List Char :=
  let trimmed := path.toList.reverse.dropWhile (· == '/')
  (trimmed.takeWhile (· != '/')).reverse

/-- What follows the last point of a file name, unless that point comes first. -/
def extension? (path : String) : Option String :=
  let reversed := (fileName path).reverse
  match reversed.dropWhile (· != '.') with
  | _ :: _ :: _ => some (String.ofList (reversed.takeWhile (· != '.')).reverse)
  | _ => none

/-- YAML for the extensions `yaml` and `yml`, JSON for any other. -/
def ofPath (path : String) : SourceFormat :=
  match extension? path with
  | some "yaml" | some "yml" => yaml
  | _ => json

/-- The value tree a text stands for. -/
def read (format : SourceFormat) (text origin : String) : Except DocumentError Json :=
  match format with
  | json =>
    match Json.read? text with
    | some v => .ok v
    | none => .error (.notJson origin)
  | yaml =>
    match Yaml.read? text with
    | some v => .ok v
    | none => .error (.notYaml origin)

end SourceFormat

end Conform
