import Conform.Schema.Definition

/-!
# Targets

What a value is validated against: a named type, or a schema object without a
name.
-/

namespace Conform

inductive Target where
  | named (name : TypeName)
  | inline (definition : Definition)

namespace Target

/-- A definition that is no more than a reference stands for the type it names. -/
def ofDefinition (d : Definition) : Target :=
  match d.keywords.reference.map TypeName.ofReference with
  | some (.ok name) => if d.items.isNone && d.properties.isNone then named name else inline d
  | _ => inline d

/-- What a report calls the target. -/
def label : Target → String
  | named name => name.text
  | inline _ => "inline schema"

end Target

end Conform
