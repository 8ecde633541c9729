import Conform.Proofs.Conformance
import Conform.Proofs.Lowered

/-!
# What is declared overrides the definition

Where a shape with fields of its own meets an object, the object is compiled
with exactly these fields: each is required as declared, and accepts null as
declared wherever that is said, whatever the property says of null and whatever
type it refers to. The same holds below arrays and inside the fields.
-/

namespace Conform

mutual

/-- A rule has, at every depth, exactly the fields that are declared where it is an object. -/
def FieldShape.Governs : FieldShape → Rule → Prop
  | .inline declared, .object fields => FieldRule.GovernsAll declared fields
  | .array element, .array item _ _ => element.Governs item.rule
  | _, _ => True

/-- A field is required as declared, and accepts null as declared if that is said. -/
def FieldRule.Governs : FieldRule → Validator → Prop
  | ⟨required, nullable, shape⟩, v =>
    v.required = required ∧ (∀ accepted, nullable = some accepted → v.nullable = accepted) ∧
      shape.Governs v.rule

/-- The fields are those declared, in the same order, and each is as declared. -/
def FieldRule.GovernsAll : List (String × FieldRule) → List (String × Validator) → Prop
  | [], [] => True
  | (name, rule) :: rest, (field, v) :: more =>
    field = name ∧ rule.Governs v ∧ FieldRule.GovernsAll rest more
  | _, _ => False

end

theorem FieldRule.GovernsAll.keys : {declared : TypeFields} → {fields : List (String × Validator)} →
    FieldRule.GovernsAll declared fields → Table.keys fields = Table.keys declared
  | [], [], _ => rfl
  | (_, _) :: _, (_, _) :: _, ⟨hname, _, hrest⟩ => by
    have hkeys := hrest.keys
    simp_all [Table.keys]

theorem FieldRule.Governs.required {declaration : FieldRule} {v : Validator}
    (h : declaration.Governs v) : v.required = declaration.required := by
  obtain ⟨required, nullable, shape⟩ := declaration
  exact h.1

theorem FieldRule.GovernsAll.of_mem {entry : String × FieldRule} : {declared : TypeFields} →
    {fields : List (String × Validator)} → FieldRule.GovernsAll declared fields →
      entry ∈ declared → ∃ v, (entry.1, v) ∈ fields ∧ entry.2.Governs v
  | (name, declaration) :: rest, (_, v) :: more, ⟨hname, hgoverns, hrest⟩, hmem => by
    subst hname
    rcases List.mem_cons.mp hmem with rfl | hmem
    · exact ⟨v, List.mem_cons_self, hgoverns⟩
    · obtain ⟨w, hw, hgoverns⟩ := hrest.of_mem hmem
      exact ⟨w, List.mem_cons_of_mem _ hw, hgoverns⟩

/-- Whether a rule is neither that of an object nor that of an array. -/
def Rule.IsFlat : Rule → Prop
  | .object _ | .array _ _ _ => False
  | _ => True

/-- A flat rule has no fields to speak of. -/
theorem FieldShape.governs_of_flat {shape : FieldShape} {rule : Rule} (h : rule.IsFlat) :
    shape.Governs rule := by
  unfold FieldShape.Governs
  split
  · exact h.elim
  · exact h.elim
  · trivial

/-- Where a lowering builds an object for a shape, the shape governs it. -/
def Lowering.Governed (s : Store) (inherited : TypeName → Bool) (lowering : Lowering) : Prop :=
  ∀ shape location node, lowering shape location = .ok node →
    ∀ rule, node.shape.Builds s inherited rule → shape.Governs rule

namespace Lower

variable {s : Store} {inherited : TypeName → Bool} {k : Keywords} {lowering : Lowering}
  {properties : List (String × Lowering)} {declared : TypeFields}
  {fields : List (String × NodeField)} {nullable : Bool} {shape : FieldShape} {location : String}
  {node : Node} {rule : Rule} {v : Validator} {p : Parts}

/-- Null is accepted as declared, whatever the node says of it or refers to. -/
theorem pin_governs {declaration : FieldRule}
    (hshape : ∀ rule, node.shape.Builds s inherited rule → declaration.shape.Governs rule)
    (h : (pin declaration node).node.Builds s inherited (pin declaration node).required v) :
    declaration.Governs v := by
  obtain ⟨required, nullable, shape⟩ := declaration
  cases nullable with
  | none => exact ⟨h.required, nofun, hshape _ h.rule⟩
  | some accepted =>
    refine ⟨h.required, fun _ heq => ?_, hshape _ h.rule⟩
    cases heq
    -- a pinned node inherits nothing
    exact h.nullable.trans (Bool.or_false accepted)

theorem declaredFields_governs (hproperties : ∀ entry ∈ properties, Lowering.Governed s inherited entry.2)
    (h : declaredFields properties location declared = .ok fields) {vs : List (String × Validator)}
    (hbuilds : Node.BuildsFields s inherited fields vs) : FieldRule.GovernsAll declared vs := by
  induction declared generalizing fields vs with
  | nil =>
    cases h
    cases hbuilds
    trivial
  | cons entry rest ih =>
    obtain ⟨name, declaration⟩ := entry
    obtain ⟨property, node, more, hget, hnode, hmore, rfl⟩ := declaredFields_cons h
    have hgoverned := hproperties _ (Table.mem_of_get? hget) declaration.shape _ node hnode
    generalize hpin : pin declaration node = field at hbuilds
    obtain ⟨required, pinned⟩ := field
    cases hbuilds with
    | cons hfield hrest =>
      refine ⟨rfl, pin_governs hgoverned ?_, ih hmore hrest⟩
      rw [hpin]
      exact hfield

theorem object_governs (hproperties : ∀ entry ∈ properties, Lowering.Governed s inherited entry.2)
    (h : object k properties shape.fields? nullable location = .ok node)
    (hbuilds : node.shape.Builds s inherited rule) : shape.Governs rule := by
  obtain ⟨fields, hfields, rfl⟩ := object_node h
  cases hbuilds with
  | object hbuilt =>
    cases shape with
    | inline declared => exact declaredFields_governs hproperties hfields hbuilt
    | _ => trivial

theorem array_governs (hlowering : lowering.Governed s inherited)
    (h : array k lowering shape nullable location = .ok node)
    (hbuilds : node.shape.Builds s inherited rule) : shape.Governs rule := by
  obtain ⟨element, helement, rfl⟩ := array_node h
  cases hbuilds with
  | array hitem =>
    cases shape with
    | array declared => exact hlowering declared _ element helement _ hitem.rule
    | _ => trivial

theorem primitive_governs {primitive : Primitive}
    (h : (NodeShape.primitive primitive).Builds s inherited rule) : shape.Governs rule := by
  cases h with
  | primitive hrule =>
    rcases Primitive.rule_kind hrule with ⟨r, rfl⟩ | ⟨r, rfl⟩ | rfl <;>
      exact FieldShape.governs_of_flat trivial

theorem shapeAlone_governs : Lowering.Governed s inherited shapeAlone
  | .unspecified, _, _, h, _, _ => by cases h
  | .scalar kind, location, node, h, rule, hbuilds => by
    obtain ⟨p, -, -, -, -, rfl⟩ := scalar_node h
    exact primitive_governs hbuilds
  | .named name, _, _, _, _, _ => trivial
  | .inline declared, location, node, h, rule, hbuilds =>
    object_governs (fun _ hentry => absurd hentry List.not_mem_nil) h hbuilds
  | .array element, location, node, h, rule, hbuilds => by
    obtain ⟨item, hitem, h⟩ := exists_ok_of_bind h
    cases h
    cases hbuilds with
    | array hbuilt => exact shapeAlone_governs element _ item hitem _ hbuilt.rule

namespace Parts

theorem All.governed (h : p.All (Lowering.Governed s inherited)) :
    Lowering.Governed s inherited p.lower := by
  intro shape location node hnode rule hbuilds
  cases yields_of_lower hnode with
  | part nullable hpart hinner => exact hpart _ h shape location _ hinner rule hbuilds
  | union nullable hbranches hnodes =>
    cases hbuilds
    exact FieldShape.governs_of_flat trivial
  | alone hread =>
    cases hread with
    | reference hdecision => cases hbuilds <;> exact FieldShape.governs_of_flat trivial
    | enum strings =>
      cases hbuilds
      exact FieldShape.governs_of_flat trivial
    | array hnode => exact array_governs (h.itemsOrShape shapeAlone_governs) hnode hbuilds
    | object hnode => exact object_governs h.getD_properties hnode hbuilds
    | primitive p => exact primitive_governs hbuilds

end Parts

end Lower

theorem Definition.lower_governed {s : Store} {inherited : TypeName → Bool} (d : Definition) :
    d.lower.Governed s inherited :=
  Definition.lower_of_parts (fun _ => Lower.Parts.All.governed) d

namespace Store

variable {s : Store} {inherited : TypeName → Bool} {name : TypeName} {d : Definition}
  {declared : TypeFields} {node : Node} {v : Validator}

/-- A type whose fields are checked one by one is built with those that are declared. -/
theorem governs_of_lowers (hfields : s.fields? name = some declared)
    (hd : s.definition? name = some d) (hobject : s.isObject name d = true)
    (hlowers : s.Lowers name node) (hbuilds : node.Builds s inherited true v) :
    ∃ fields, v.rule = .object fields ∧ FieldRule.GovernsAll declared fields := by
  rw [Lowers, lower, hd] at hlowers
  simp only [hobject, if_true, hfields, Definition.lowerTable_eq] at hlowers
  obtain ⟨fields, hdeclared, rfl⟩ := Lower.object_node hlowers
  have hproperties : ∀ entry ∈ Table.mapValues Definition.lower (d.properties.getD []),
      Lowering.Governed s inherited entry.2 := by
    intro entry hentry
    obtain ⟨property, -, rfl⟩ := List.mem_map.mp hentry
    exact property.2.lower_governed
  cases hbuilds with
  | mk hrule =>
    cases hrule with
    | object hbuilt => exact ⟨_, rfl, Lower.declaredFields_governs hproperties hdeclared hbuilt⟩

end Store

namespace Session

variable {store : Store} {name : TypeName} {d : Definition} {declared : TypeFields} {v : Validator}

/--
After any calls, a type with declared fields and a definition that looks like an object compiles to
an object with exactly these fields. Each is required as declared and accepts null as declared where
that is said, and its own shape says the same of the objects below it.
-/
theorem compiled_as_declared (store : Store) (calls : List Call)
    (hname : store.isExcluded name = false) (hfields : store.fields? name = some declared)
    (hd : store.definition? name = some d) (hlike : d.isObjectLike = true)
    (h : ((after store calls).compiled name).1 = .ok v) :
    ∃ fields, v.rule = .object fields ∧ Table.keys fields = Table.keys declared ∧
      FieldRule.GovernsAll declared fields := by
  obtain ⟨inherited, node, hlowers, hbuilds⟩ := compiled_builds hname h
  have hobject : store.isObject name d = true := by rw [Store.isObject, hlike, Bool.true_or]
  obtain ⟨fields, hrule, hgoverned⟩ :=
    Store.governs_of_lowers hfields hd hobject hlowers hbuilds
  exact ⟨fields, hrule, hgoverned.keys, hgoverned⟩

/-- A sheet refers to a type that accepts null, and has rows with a field that no one declares. -/
def sheetDefinition : Definition where
  keywords := { required := some (.names ["m"]) }
  properties := some
    [("m", plainDefinition { reference := some aliasName.toReference, nullable := some true }),
      ("rows", {
        items := some {
          oneOf := some [{ properties := some [("n", integerDefinition), ("note", integerDefinition)] }] } })]

/-- The reference is optional and does not accept null, and the rows have one field, which may be null. -/
def sheetFields : TypeFields :=
  [("m", ⟨false, some false, .unspecified⟩),
    ("rows", ⟨true, none, .array (.inline [("n", ⟨true, some true, .unspecified⟩)])⟩)]

def sheetStore : Store where
  document := { aliasStore.document with
    definitions := Table.insert holderName sheetDefinition aliasStore.document.definitions }
  fields := FieldTable.empty.declare holderName sheetFields
  exclusions := Exclusions.empty

/-- What is made of the sheet. -/
def sheetValidator : Validator where
  required := true
  nullable := false
  rule :=
    let row : Validator := ⟨true, false, .object [("n", ⟨true, true, .number ⟨true, none, none⟩⟩)]⟩
    .object
      [("m", ⟨false, false, .named aliasName⟩), ("rows", ⟨true, false, .array row none none⟩)]

/-- The sheet is compiled as declared, and so are its rows. -/
theorem sheet_as_declared :
    sheetStore.isExcluded holderName = false ∧ sheetStore.fields? holderName = some sheetFields ∧
      sheetStore.definition? holderName = some sheetDefinition ∧
      sheetDefinition.isObjectLike = true ∧
      ((after sheetStore []).compiled holderName).1 = .ok sheetValidator ∧
      ∃ fields, sheetValidator.rule = .object fields ∧
        Table.keys fields = Table.keys sheetFields ∧ FieldRule.GovernsAll sheetFields fields := by
  have hname : sheetStore.isExcluded holderName = false := by decide
  have h : ((after sheetStore []).compiled holderName).1 = .ok sheetValidator := by decide +kernel
  exact ⟨hname, rfl, rfl, rfl, h, compiled_as_declared sheetStore [] hname rfl rfl rfl h⟩

end Session

end Conform
