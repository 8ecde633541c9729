import Conform.Lowering
import Conform.Proofs.Simulation

/-!
# What a schema object is read as

Lowering a schema object first decides what the object is, by its keywords and
the declared shape, and then builds the node of that. Neither `nullable` nor a
constraint has a say in the decision, and only the node carries them. The cases
of a schema object are told apart here and nowhere else: its nodes are one of
`Parts.ReadAs`.
-/

namespace Conform

namespace Lower

/-- What a schema object without union and wrapper is read as. -/
inductive Decision where
  | reference (name : TypeName)
  | enum (values : List Json)
  | array
  | object (properties : List (String × Lowering))
  | primitive (kind : PrimitiveKind) (fallback : Option Format)
  | refused (error : CompileError)

/-- The type that a declared shape puts behind a bare object. -/
def typeBehind? (k : Keywords) : FieldShape → Option TypeName
  | .named name =>
    if (k.kindList.isEmpty || k.kindList == ["object"]) && k.enumValues.isNone then some name else none
  | _ => none

/-- The primitive that a scalar shape declares. -/
def ofScalar : Scalar → Decision
  | .text => .primitive .string none
  | .number => .primitive .number none
  | .flag => .primitive .boolean none
  | .date => .primitive .string (some .dateTime)

section

variable {k : Keywords} {nullable : Bool} {location : String} {node : Node}

theorem primitive_node {kind : PrimitiveKind} {fallback : Option Format}
    (h : primitive k kind fallback nullable location = .ok node) :
    ∃ p format c, Primitive.build kind format c location = .ok p ∧
      node = Node.of (.primitive p) nullable := by
  unfold primitive at h
  split at h
  · cases h
  · split at h
    · cases h
    · obtain ⟨p, hbuilt, h⟩ := exists_ok_of_bind h
      cases h
      exact ⟨p, _, _, hbuilt, rfl⟩

theorem scalar_node {scalar : Scalar} (h : Lower.scalar k scalar nullable location = .ok node) :
    ∃ p kind format c, Primitive.build kind format c location = .ok p ∧
      node = Node.of (.primitive p) nullable := by
  cases scalar <;>
    obtain ⟨p, format, c, hbuilt, rfl⟩ := primitive_node h <;>
    exact ⟨p, _, format, c, hbuilt, rfl⟩

theorem array_node {lowering : Lowering} {shape : FieldShape}
    (h : array k lowering shape nullable location = .ok node) :
    ∃ element, lowering (shape.element?.getD .unspecified) (location ++ "[]") = .ok element ∧
      node = Node.of (.array element k.minItems k.maxItems) nullable := by
  obtain ⟨-, -, h⟩ := exists_ok_of_bind h
  obtain ⟨element, helement, h⟩ := exists_ok_of_bind h
  cases h
  exact ⟨element, helement, rfl⟩

theorem object_node {properties : List (String × Lowering)} {declared : Option TypeFields}
    (h : object k properties declared nullable location = .ok node) :
    ∃ fields, objectFields k properties declared location = .ok fields ∧
      node = Node.of (.object fields) nullable := by
  obtain ⟨-, -, h⟩ := exists_ok_of_bind h
  obtain ⟨fields, hfields, h⟩ := exists_ok_of_bind h
  cases h
  exact ⟨fields, hfields, rfl⟩

/-- The first declared field is a property, which is lowered for what is declared. -/
theorem declaredFields_cons {properties : List (String × Lowering)} {name : String} {rule : FieldRule}
    {rest : TypeFields} {fields : List (String × NodeField)}
    (h : declaredFields properties location ((name, rule) :: rest) = .ok fields) :
    ∃ property node more, Table.get? name properties = some property ∧
      property rule.shape (location ++ "." ++ name) = .ok node ∧
      declaredFields properties location rest = .ok more ∧
      fields = (name, pin rule node) :: more := by
  rw [declaredFields] at h
  cases hget : Table.get? name properties with
  | none =>
    rw [hget] at h
    cases h
  | some property =>
    rw [hget] at h
    obtain ⟨node, hnode, h⟩ := exists_ok_of_bind h
    obtain ⟨more, hmore, h⟩ := exists_ok_of_bind h
    cases h
    exact ⟨property, node, more, rfl, hnode, hmore, rfl⟩

end

namespace Decision

/-- The node of a schema object that is read as decided. -/
def node (p : Parts) (nullable : Bool) (shape : FieldShape) (location : String) :
    Decision → Except CompileError Node
  | reference name => .ok (Node.of (.reference name) nullable)
  | enum values => do
    refuseForeign p.keywords [] "enum" location
    .ok (Node.of (.enum (← enumStrings values location)) nullable)
  | array => Lower.array p.keywords p.itemsOrShape shape nullable location
  | object properties => Lower.object p.keywords properties shape.fields? nullable location
  | primitive kind fallback => Lower.primitive p.keywords kind fallback nullable location
  | refused error => .error error

end Decision

namespace Parts

/-- The decision where no kind is given. -/
def untypedDecision (p : Parts) (shape : FieldShape) (location : String) : Decision :=
  if p.items.isSome then .array
  else
    match p.properties with
    | some properties => .object properties
    | none =>
      match shape with
      | .unspecified => .refused (.missingType location)
      | .scalar kind => ofScalar kind
      | .named name => .reference name
      | .array _ => .array
      | .inline _ => .object []

/-- The decision by the kinds that are given, null aside. -/
def kindDecision (p : Parts) (location : String) : List String → Decision
  | ["array"] => .array
  | ["object"] => .object (p.properties.getD [])
  | [word] =>
    match PrimitiveKind.ofKeyword? word with
    | some kind => .primitive kind none
    | none => .refused (.unknownKind word location)
  | many => .refused (.severalKinds many location)

/-- What the keywords and the declared shape make of a schema object. -/
def decision (p : Parts) (shape : FieldShape) (location : String) : Decision :=
  match typeBehind? p.keywords shape with
  | some name => .reference name
  | none =>
    match p.keywords.reference with
    | some reference =>
      match TypeName.ofReference reference with
      | .ok name => .reference name
      | .error e => .refused (.badReference location e)
    | none =>
      match p.keywords.enumValues with
      | some values => .enum values
      | none =>
        match p.keywords.kindList with
        | [] =>
          if p.keywords.listsNull then .refused (.onlyNull location)
          else p.untypedDecision shape location
        | kinds => p.kindDecision location kinds

variable (p : Parts) (shape : FieldShape) (location : String)

theorem untyped_eq (nullable : Bool) : p.untyped nullable shape location =
    (p.untypedDecision shape location).node p nullable shape location := by
  unfold untyped untypedDecision
  split
  · rfl
  · cases p.properties with
    | some properties => rfl
    | none =>
      cases shape with
      | scalar kind => cases kind <;> rfl
      | _ => rfl

/-- A schema object lowers to the node of what it is read as. -/
theorem simple_eq : p.simple shape location = (p.decision shape location).node p
    (p.keywords.nullableSet || p.keywords.listsNull) shape location := by
  unfold simple decision
  dsimp only
  split
  · next name hbehind =>
    have hsome : typeBehind? p.keywords shape = some name := hbehind
    rw [hsome]
    rfl
  · next hbehind =>
    have hnone : typeBehind? p.keywords shape = none := hbehind
    rw [hnone]
    cases p.keywords.reference with
    | some reference =>
      dsimp only
      cases TypeName.ofReference reference <;> rfl
    | none =>
      cases p.keywords.enumValues with
      | some values => rfl
      | none =>
        dsimp only
        generalize p.keywords.kindList = kinds
        split
        · cases p.keywords.listsNull with
          | true => rfl
          | false => exact untyped_eq p shape location _
        · rfl
        · rfl
        · next word harray hobject =>
          cases h : PrimitiveKind.ofKeyword? word <;> simp [kindDecision, Decision.node, h]
        · next hnone harray hobject hone => simp [kindDecision, Decision.node]

variable {p shape location} {properties : List (String × Lowering)}

theorem kindDecision_at (kinds : List String) (location other : String) :
    (∃ error, p.kindDecision location kinds = .refused error) ∨
      p.kindDecision location kinds = p.kindDecision other kinds := by
  unfold kindDecision
  split
  · exact Or.inr rfl
  · exact Or.inr rfl
  · next word _ _ =>
    cases PrimitiveKind.ofKeyword? word with
    | some kind => exact Or.inr rfl
    | none => exact Or.inl ⟨_, rfl⟩
  · exact Or.inl ⟨_, rfl⟩

theorem untypedDecision_at (location other : String) :
    (∃ error, p.untypedDecision shape location = .refused error) ∨
      p.untypedDecision shape location = p.untypedDecision shape other := by
  unfold untypedDecision
  split
  · exact Or.inr rfl
  · cases p.properties with
    | some properties => exact Or.inr rfl
    | none =>
      cases shape with
      | unspecified => exact Or.inl ⟨_, rfl⟩
      | _ => exact Or.inr rfl

/-- A place is only spoken of where a schema object is refused. -/
theorem decision_at (location other : String) :
    (∃ error, p.decision shape location = .refused error) ∨
      p.decision shape location = p.decision shape other := by
  unfold decision
  cases typeBehind? p.keywords shape with
  | some name => exact Or.inr rfl
  | none =>
    cases p.keywords.reference with
    | some reference =>
      dsimp only
      cases TypeName.ofReference reference with
      | ok name => exact Or.inr rfl
      | error e => exact Or.inl ⟨_, rfl⟩
    | none =>
      cases p.keywords.enumValues with
      | some values => exact Or.inr rfl
      | none =>
        cases p.keywords.kindList with
        | cons kind rest => exact kindDecision_at (kind :: rest) location other
        | nil =>
          cases p.keywords.listsNull with
          | true => exact Or.inl ⟨_, rfl⟩
          | false => exact untypedDecision_at location other

theorem kindDecision_object {kinds : List String}
    (h : p.kindDecision location kinds = .object properties) : properties = p.properties.getD [] := by
  unfold kindDecision at h
  split at h
  · cases h
  · cases h
    rfl
  · split at h <;> cases h
  · cases h

theorem untypedDecision_object (h : p.untypedDecision shape location = .object properties) :
    properties = p.properties.getD [] := by
  unfold untypedDecision at h
  split at h
  · cases h
  · cases hproperties : p.properties with
    | some given =>
      rw [hproperties] at h
      cases h
      rfl
    | none =>
      rw [hproperties] at h
      cases shape with
      | inline fields =>
        cases h
        rfl
      | scalar kind => cases kind <;> cases h
      | _ => cases h

/-- What is read as an object has the properties that are given, or none. -/
theorem decision_object (h : p.decision shape location = .object properties) :
    properties = p.properties.getD [] := by
  unfold decision at h
  split at h
  · cases h
  · split at h
    · split at h <;> cases h
    · split at h
      · cases h
      · split at h
        · split at h
          · cases h
          · exact untypedDecision_object h
        · exact kindDecision_object h

/-- Kinds make a schema object neither a reference nor an enum. -/
theorem kindDecision_ne (kinds : List String) :
    (∀ name, p.kindDecision location kinds ≠ .reference name) ∧
      ∀ values, p.kindDecision location kinds ≠ .enum values := by
  unfold kindDecision
  split
  · exact ⟨nofun, nofun⟩
  · exact ⟨nofun, nofun⟩
  · split <;> exact ⟨nofun, nofun⟩
  · exact ⟨nofun, nofun⟩

theorem untypedDecision_ne_enum (values : List Json) :
    p.untypedDecision shape location ≠ .enum values := by
  unfold untypedDecision
  split
  · nofun
  · cases p.properties with
    | some properties => nofun
    | none =>
      cases shape with
      | scalar kind => cases kind <;> nofun
      | _ => nofun

/-- What is read as an enum has the values that are listed. -/
theorem decision_enum {values : List Json} (h : p.decision shape location = .enum values) :
    p.keywords.enumValues = some values := by
  unfold decision at h
  split at h
  · cases h
  · split at h
    · split at h <;> cases h
    · split at h
      · next given hgiven =>
        cases h
        exact hgiven
      · split at h
        · split at h
          · cases h
          · exact absurd h (untypedDecision_ne_enum values)
        · exact absurd h ((kindDecision_ne _).2 values)

theorem untypedDecision_ne_reference (hshape : ∀ name, shape ≠ .named name) (name : TypeName) :
    p.untypedDecision shape location ≠ .reference name := by
  unfold untypedDecision
  split
  · nofun
  · cases p.properties with
    | some properties => nofun
    | none =>
      cases shape with
      | named other => exact absurd rfl (hshape other)
      | scalar kind => cases kind <;> nofun
      | _ => nofun

/-- Only a declared type and a `$ref` make a schema object a reference. -/
theorem decision_ne_reference (hbehind : typeBehind? p.keywords shape = none)
    (hreference : p.keywords.reference = none) (name : TypeName) :
    p.decision shape location ≠ .reference name := by
  unfold decision
  rw [hbehind, hreference]
  cases hvalues : p.keywords.enumValues with
  | some values => nofun
  | none =>
    cases hkinds : p.keywords.kindList with
    | cons kind rest => exact (kindDecision_ne _).1 name
    | nil =>
      cases p.keywords.listsNull with
      | true => nofun
      | false =>
        refine untypedDecision_ne_reference (fun other hother => ?_) name
        rw [hother, typeBehind?, hkinds, hvalues] at hbehind
        cases hbehind

/-- The nodes that a schema object may be read as, told whether null is accepted. -/
inductive ReadAs (p : Parts) (shape : FieldShape) (location : String) (nullable : Bool) : Node → Prop
  | reference {name : TypeName} : p.decision shape location = .reference name →
      ReadAs p shape location nullable (Node.of (.reference name) nullable)
  | enum (strings : List String) : ReadAs p shape location nullable (Node.of (.enum strings) nullable)
  | array {node : Node} : Lower.array p.keywords p.itemsOrShape shape nullable location = .ok node →
      ReadAs p shape location nullable node
  | object {node : Node} :
      Lower.object p.keywords (p.properties.getD []) shape.fields? nullable location = .ok node →
        ReadAs p shape location nullable node
  | primitive (primitive : Primitive) :
      ReadAs p shape location nullable (Node.of (.primitive primitive) nullable)

theorem readAs_of_simple {node : Node} (h : p.simple shape location = .ok node) :
    p.ReadAs shape location (p.keywords.nullableSet || p.keywords.listsNull) node := by
  rw [simple_eq] at h
  cases hdecision : p.decision shape location with
  | reference name =>
    rw [hdecision] at h
    cases h
    exact .reference hdecision
  | enum values =>
    rw [hdecision] at h
    obtain ⟨-, -, h⟩ := exists_ok_of_bind h
    obtain ⟨strings, -, h⟩ := exists_ok_of_bind h
    cases h
    exact .enum strings
  | array =>
    rw [hdecision] at h
    exact .array h
  | object properties =>
    rw [hdecision, decision_object hdecision] at h
    exact .object h
  | primitive kind fallback =>
    rw [hdecision] at h
    obtain ⟨primitive, -, -, -, rfl⟩ := primitive_node h
    exact .primitive primitive
  | refused error =>
    rw [hdecision] at h
    cases h

end Parts

end Lower

end Conform
