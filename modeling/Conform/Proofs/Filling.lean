import Conform.Proofs.Decision
import Conform.Proofs.Lowered

/-!
# Shapes that fill gaps

A declared shape of scalars and arrays is asked only where the definition leaves
its type open. What lowers without it lowers to the same node with it, and of
the failures it can mend none but a missing type.
-/

namespace Conform

namespace FieldShape

variable {shape : FieldShape}

/-- Whether neither a named type nor declared fields stand in it, at any depth. -/
def isPlain : FieldShape → Bool
  | unspecified | scalar _ => true
  | named _ | inline _ => false
  | array element => element.isPlain

theorem isPlain_element (h : shape.isPlain = true) :
    (shape.element?.getD .unspecified).isPlain = true := by
  cases shape with
  | array element => exact h
  | _ => rfl

theorem fields?_of_isPlain (h : shape.isPlain = true) : shape.fields? = none := by
  cases shape with
  | inline fields => cases h
  | _ => rfl

end FieldShape

/-- The results are equal, unless the first is that a type is missing. -/
def Simulation.fills : Simulation (Except CompileError) (Except CompileError) where
  rel x y := x = y ∨ ∃ location, x = .error (.missingType location)
  pure _ := Or.inl rfl
  bind {α β x y f g} hxy hfg := by
    rcases hxy with rfl | ⟨location, rfl⟩
    · cases x with
      | error e => exact Or.inl rfl
      | ok a => exact hfg a
    · exact Or.inr ⟨location, rfl⟩

/-- A lowering in which plain shapes do no more than fill gaps. -/
def Lowering.Fills (lowering : Lowering) : Prop :=
  ∀ shape : FieldShape, shape.isPlain = true → ∀ location,
    Simulation.fills.rel (lowering .unspecified location) (lowering shape location)

namespace Lower

open Simulation (fills)

variable {k : Keywords} {lowering : Lowering} {lowerings : List Lowering} {shape : FieldShape}
  {p : Parts}

theorem array_fills (h : lowering.Fills) (hplain : shape.isPlain = true) (nullable : Bool)
    (location : String) :
    fills.rel (array k lowering .unspecified nullable location)
      (array k lowering shape nullable location) :=
  fills.bind (Or.inl rfl) fun _ =>
    fills.bind (h _ (FieldShape.isPlain_element hplain) _) fun _ => Or.inl rfl

theorem shapeAlone_fills : Lowering.Fills shapeAlone :=
  fun _ _ location => Or.inr ⟨location, rfl⟩

theorem union_fills (h : ∀ lowering ∈ lowerings, Lowering.Fills lowering)
    (hplain : shape.isPlain = true) (nullable : Bool) (location : String) :
    fills.rel (union lowerings nullable .unspecified location)
      (union lowerings nullable shape location) := by
  match lowerings with
  | [] => exact Or.inl rfl
  | [branch] =>
    exact fills.bind (h branch (List.mem_singleton_self branch) shape hplain location) fun _ =>
      Or.inl rfl
  -- the branches of a union are not told the shape
  | _ :: _ :: _ => exact Or.inl rfl

theorem wrapper_fills (h : ∀ lowering ∈ lowerings, Lowering.Fills lowering)
    (hplain : shape.isPlain = true) (nullable : Bool) (location : String) :
    fills.rel (wrapper lowerings nullable .unspecified location)
      (wrapper lowerings nullable shape location) := by
  match lowerings with
  | [] => exact Or.inl rfl
  | [member] =>
    exact fills.bind (h member (List.mem_singleton_self member) shape hplain location) fun _ =>
      Or.inl rfl
  | _ :: _ :: _ => exact Or.inl rfl

namespace Parts

theorem typeBehind?_of_isPlain (hplain : shape.isPlain = true) : typeBehind? k shape = none := by
  cases shape with
  | named name => cases hplain
  | _ => rfl

theorem untypedDecision_fills (p : Parts) (shape : FieldShape) (location : String) :
    p.untypedDecision .unspecified location = p.untypedDecision shape location ∨
      p.untypedDecision .unspecified location = .refused (.missingType location) := by
  unfold untypedDecision
  split
  · exact Or.inl rfl
  · cases p.properties with
    | some properties => exact Or.inl rfl
    | none => exact Or.inr rfl

/-- A plain shape has a say in the decision only where a type is missing. -/
theorem decision_fills (hplain : shape.isPlain = true) (location : String) :
    p.decision .unspecified location = p.decision shape location ∨
      p.decision .unspecified location = .refused (.missingType location) := by
  have hunspecified : typeBehind? p.keywords .unspecified = none := rfl
  unfold decision
  rw [hunspecified, typeBehind?_of_isPlain hplain]
  cases p.keywords.reference with
  | some reference => exact Or.inl rfl
  | none =>
    cases p.keywords.enumValues with
    | some values => exact Or.inl rfl
    | none =>
      cases p.keywords.kindList with
      | cons kind rest => exact Or.inl rfl
      | nil =>
        cases p.keywords.listsNull with
        | true => exact Or.inl rfl
        | false => exact untypedDecision_fills p shape location

theorem All.fills_simple (h : p.All Lowering.Fills) (hplain : shape.isPlain = true)
    (location : String) :
    fills.rel (p.simple .unspecified location) (p.simple shape location) := by
  rw [simple_eq, simple_eq]
  rcases @decision_fills shape p hplain location with hsame | hmissing
  · rw [hsame]
    cases p.decision shape location with
    | array => exact array_fills (h.itemsOrShape shapeAlone_fills) hplain _ location
    | object properties =>
      refine Or.inl ?_
      simp only [Decision.node, FieldShape.fields?_of_isPlain hplain]
      rfl
    | _ => exact Or.inl rfl
  · rw [hmissing]
    exact Or.inr ⟨location, rfl⟩

theorem All.fills (h : p.All Lowering.Fills) : Lowering.Fills p.lower := by
  intro shape hplain location
  unfold lower
  cases hbranches : p.branches with
  | some found => exact union_fills (h.branches found hbranches) hplain _ location
  | none =>
    cases hmembers : p.members with
    | some members => exact wrapper_fills (h.members members hmembers) hplain _ location
    | none => exact h.fills_simple hplain location

end Parts

end Lower

namespace Definition

variable {d : Definition} {shape : FieldShape}

theorem lower_fills (d : Definition) : d.lower.Fills :=
  lower_of_parts (fun _ => Lower.Parts.All.fills) d

/--
What lowers as the definition says lowers to the same node for every plain shape, and what fails
fails for every plain shape with the same error, unless a type is missing.
-/
theorem plain_shape_fills_gaps (d : Definition) (location : String)
    (hplain : shape.isPlain = true) :
    (∀ node, d.lower .unspecified location = .ok node → d.lower shape location = .ok node) ∧
      ∀ error, d.lower .unspecified location = .error error →
        (∀ place, error ≠ .missingType place) → d.lower shape location = .error error := by
  rcases lower_fills d shape hplain location with hsame | ⟨place, hmissing⟩
  · rw [hsame]
    exact ⟨fun _ => id, fun _ h _ => h⟩
  · rw [hmissing]
    refine ⟨nofun, fun error herror hother => ?_⟩
    cases herror
    exact absurd rfl (hother place)

/-- Rows of numbers, where no kind is given for the lists. -/
def rows : Definition where
  items := some { items := some {
    keywords := { kinds := some (.one "integer"), minimum := some Double.zero } } }

/-- Texts that are declared for the cells change nothing, since the rows say what they are. -/
theorem rows_stay_numbers :
    let shape := FieldShape.array (.array (.scalar .text))
    shape.isPlain = true ∧ ∃ node, rows.lower .unspecified "Sheet.rows" = .ok node ∧
      rows.lower shape "Sheet.rows" = .ok node := by
  intro shape
  have hplain : shape.isPlain = true := rfl
  obtain ⟨hok, -⟩ := plain_shape_fills_gaps rows "Sheet.rows" hplain
  exact ⟨hplain, _, rfl, hok _ rfl⟩

end Definition

end Conform
