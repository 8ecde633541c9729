import Conform.Schema.Document
import Conform.Schema.Fields

/-!
# Stores

The input of compilation, assembled before any value is validated: a schema
document, a field table, and the names that are left unvalidated.
-/

namespace Conform

/-- Type names opted out of validation, in order. -/
structure Exclusions where
  entries : List (TypeName × Unit)

namespace Exclusions

def empty : Exclusions := ⟨[]⟩

def names (e : Exclusions) : List TypeName := Table.keys e.entries

def size (e : Exclusions) : Nat := e.entries.length

/-- Whether a name is excluded. -/
def contains (e : Exclusions) (name : TypeName) : Bool := Table.contains name e.entries

/-- Exclude one more name. -/
def register (e : Exclusions) (name : TypeName) : Exclusions :=
  ⟨Table.insert name () e.entries⟩

/-- Exclude every name of a list. -/
def registerAll (e : Exclusions) (names : List TypeName) : Exclusions :=
  names.foldl register e

theorem contains_register (e : Exclusions) (name other : TypeName) :
    (e.register name).contains other = true ↔ other = name ∨ e.contains other = true := by
  by_cases h : other = name
  · subst h
    simp [contains, register, Table.contains, Table.get?_insert_self]
  · simp [contains, register, Table.contains, Table.get?_insert_of_ne h, h]

end Exclusions

structure Store where
  document : Document
  fields : FieldTable
  exclusions : Exclusions

namespace Store

def empty : Store := ⟨Document.empty, FieldTable.empty, Exclusions.empty⟩

/-- The definition of a name. -/
def definition? (s : Store) (name : TypeName) : Option Definition := s.document.definition? name

/-- The fields declared for a name. -/
def fields? (s : Store) (name : TypeName) : Option TypeFields := s.fields.fields? name

def isExcluded (s : Store) (name : TypeName) : Bool := s.exclusions.contains name

/-- Every name the document or the field table knows, in order. -/
def names (s : Store) : List TypeName :=
  Table.keys ((s.document.names ++ s.fields.names).foldl (fun t n => Table.insert n () t) [])

end Store

end Conform
