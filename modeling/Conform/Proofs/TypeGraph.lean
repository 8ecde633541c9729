import Conform.Proofs.References
import Mathlib.Logic.Relation

/-!
# The graph of types

A type leads to the types that its node refers to, excluded ones aside. It
compiles exactly where every type it reaches is sound, which is proved of a
compilation elsewhere; here stand the words for it.
-/

namespace Conform

namespace Store

variable {s : Store} {name other : TypeName} {node : Node} {location : String}

/-- The node of a name; only an error depends on where the name stands. -/
def Lowers (s : Store) (name : TypeName) (node : Node) : Prop :=
  s.lower name name.text = .ok node

theorem lower_eq_ok_iff : s.lower name location = .ok node ↔ s.Lowers name node := by
  unfold Lowers lower
  cases s.definition? name with
  | none => constructor <;> intro h <;> cases h
  | some d => exact Iff.rfl

theorem Lowers.unique {other : Node} (h : s.Lowers name node) (hother : s.Lowers name other) :
    node = other :=
  Except.ok.inj (h.symm.trans hother)

theorem Lowers.definition (h : s.Lowers name node) : ∃ d, s.definition? name = some d := by
  unfold Lowers lower at h
  cases hd : s.definition? name with
  | none => rw [hd] at h; cases h
  | some d => exact ⟨d, rfl⟩

/-- A name without a definition is what lowering it complains of. -/
theorem lower_eq_unknown (h : s.definition? name = none) :
    s.lower name location = .error (.unknownType name.text location) := by
  unfold lower
  rw [h]

/-- The node of one type refers to the other, which is not excluded. -/
def Edge (s : Store) (name other : TypeName) : Prop :=
  ∃ node, s.Lowers name node ∧ other ∈ node.references ∧ s.isExcluded other = false

theorem Lowers.edge_iff (h : s.Lowers name node) :
    s.Edge name other ↔ other ∈ node.references ∧ s.isExcluded other = false := by
  constructor
  · rintro ⟨node', hnode', hedge⟩
    rw [h.unique hnode']
    exact hedge
  · intro hedge
    exact ⟨node, h, hedge⟩

/-- The types that a type leads to, itself included. -/
def Reaches (s : Store) : TypeName → TypeName → Prop := Relation.ReflTransGen s.Edge

/-- The type is defined, lowers without error, and all its patterns can be read. -/
def IsSound (s : Store) (name : TypeName) : Prop := ∃ node, s.Lowers name node ∧ node.PatternsRead

/-- Every type that a type leads to is sound. -/
def Compilable (s : Store) (name : TypeName) : Prop :=
  ∀ other, s.Reaches name other → s.IsSound other

theorem Compilable.isSound (h : s.Compilable name) : s.IsSound name := h name .refl

theorem Compilable.edge (h : s.Compilable name) (hedge : s.Edge name other) : s.Compilable other :=
  fun last hreach => h last (hreach.head hedge)

/-- Whether the node of a type is nullable, leaving aside the type it may stand for. -/
def ownNullable (s : Store) (name : TypeName) : Bool :=
  match s.lower name name.text with
  | .ok node => node.nullable
  | .error _ => false

theorem Lowers.ownNullable (h : s.Lowers name node) : s.ownNullable name = node.nullable := by
  unfold Store.ownNullable
  rw [h]

end Store

end Conform
