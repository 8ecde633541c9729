import Conform.Proofs.Decision
import Conform.Proofs.Table

/-!
# Lowering at any place

What lowering makes of a definition it makes of what the parts lower to, so a
property of lowerings that passes from parts to the whole holds of every
definition. One such property: a place is only spoken of in errors. Wherever a
definition lowers at all, it lowers to the same node at every place.
-/

namespace Conform

/-- Where the one computation succeeds, the other succeeds with the same. -/
def Simulation.succeeds : Simulation (Except CompileError) (Except CompileError) where
  rel x y := ∀ a, x = .ok a → y = .ok a
  pure _ _ h := h
  bind {α β x y f g} hxy hfg b h := by
    obtain ⟨a, hx, hf⟩ := exists_ok_of_bind h
    rw [hxy a hx]
    exact hfg a b hf

/-- A lowering that succeeds alike at all places. -/
def Lowering.Placeless (lowering : Lowering) : Prop :=
  ∀ shape location other,
    Simulation.succeeds.rel (lowering shape location) (lowering shape other)

namespace Lower.Parts

/-- All that the parts lower to has a property. -/
structure All (P : Lowering → Prop) (p : Parts) : Prop where
  branches : ∀ found ∈ p.branches, ∀ lowering ∈ found.1, P lowering
  members : ∀ found ∈ p.members, ∀ lowering ∈ found, P lowering
  items : ∀ found ∈ p.items, P found
  properties : ∀ found ∈ p.properties, ∀ entry ∈ found, P entry.2

theorem All.itemsOrShape {P : Lowering → Prop} {p : Parts} (h : p.All P) (halone : P shapeAlone) :
    P p.itemsOrShape := by
  unfold Parts.itemsOrShape
  cases hitems : p.items with
  | none => exact halone
  | some items => exact h.items items hitems

theorem All.getD_properties {P : Lowering → Prop} {p : Parts} (h : p.All P) :
    ∀ entry ∈ p.properties.getD [], P entry.2 := by
  cases hproperties : p.properties with
  | none => exact fun _ hentry => absurd hentry List.not_mem_nil
  | some properties => exact h.properties properties hproperties

/-- The ways in which the parts of a schema object come to a node: by one of them, or by all branches. -/
inductive Yields (p : Parts) (shape : FieldShape) (location : String) : Node → Prop
  | part {lowering : Lowering} {inner : Node} (nullable : Bool) :
      (∀ P, p.All P → P lowering) → lowering shape location = .ok inner →
        Yields p shape location (inner.orNull nullable)
  | union {branches : List Lowering} {nodes : List Node} (nullable : Bool) :
      (∀ P, p.All P → ∀ lowering ∈ branches, P lowering) → numbered location 0 branches = .ok nodes →
        Yields p shape location (Node.of (.union nodes) nullable)
  | alone {node : Node} :
      p.ReadAs shape location (p.keywords.nullableSet || p.keywords.listsNull) node →
        Yields p shape location node

section

variable {p : Parts} {shape : FieldShape} {location : String} {lowerings : List Lowering}
  {nullable : Bool} {node : Node}

theorem yields_of_union (hall : ∀ P, p.All P → ∀ lowering ∈ lowerings, P lowering)
    (h : Lower.union lowerings nullable shape location = .ok node) : p.Yields shape location node := by
  match lowerings with
  | [] => cases h
  | [branch] =>
    obtain ⟨inner, hinner, h⟩ := exists_ok_of_bind h
    cases h
    exact .part nullable (fun P hP => hall P hP branch (List.mem_singleton_self branch)) hinner
  | _ :: _ :: _ =>
    obtain ⟨nodes, hnodes, h⟩ := exists_ok_of_bind h
    cases h
    exact .union nullable hall hnodes

theorem yields_of_wrapper (hall : ∀ P, p.All P → ∀ lowering ∈ lowerings, P lowering)
    (h : Lower.wrapper lowerings nullable shape location = .ok node) : p.Yields shape location node := by
  match lowerings with
  | [] => cases h
  | [member] =>
    obtain ⟨inner, hinner, h⟩ := exists_ok_of_bind h
    cases h
    exact .part nullable (fun P hP => hall P hP member (List.mem_singleton_self member)) hinner
  | _ :: _ :: _ => cases h

theorem yields_of_lower (h : p.lower shape location = .ok node) : p.Yields shape location node := by
  unfold Parts.lower at h
  cases hbranches : p.branches with
  | some found =>
    rw [hbranches] at h
    exact yields_of_union (fun _ hP => hP.branches found hbranches) h
  | none =>
    rw [hbranches] at h
    cases hmembers : p.members with
    | some members =>
      rw [hmembers] at h
      exact yields_of_wrapper (fun _ hP => hP.members members hmembers) h
    | none =>
      rw [hmembers] at h
      exact .alone (readAs_of_simple h)

end

end Lower.Parts

namespace Definition

/-- All schema objects directly inside a definition have a property. -/
structure Inside (Q : Definition → Prop) (d : Definition) : Prop where
  oneOf : ∀ ds, d.oneOf = some ds → ∀ e ∈ ds, Q e
  anyOf : ∀ ds, d.anyOf = some ds → ∀ e ∈ ds, Q e
  allOf : ∀ ds, d.allOf = some ds → ∀ e ∈ ds, Q e
  items : ∀ e, d.items = some e → Q e
  properties : ∀ ps, d.properties = some ps → ∀ entry ∈ ps, Q entry.2

section Inside

variable {Q : Definition → Prop} {d : Definition}

theorem Inside.branches (h : d.Inside Q) {ds : List Definition} (hds : d.branches? = some ds) :
    ∀ e ∈ ds, Q e := by
  rcases Option.or_eq_some_iff.mp hds with hone | ⟨-, hany⟩
  · exact h.oneOf ds hone
  · exact h.anyOf ds hany

theorem Inside.getD_properties (h : d.Inside Q) : ∀ entry ∈ d.properties.getD [], Q entry.2 := by
  cases hproperties : d.properties with
  | none => exact fun _ hentry => absurd hentry List.not_mem_nil
  | some ps => exact h.properties ps hproperties

end Inside

section Induction

variable {Q : Definition → Prop}

mutual

/-- What passes from the schema objects inside to the whole holds of every definition. -/
theorem induction (step : ∀ d, d.Inside Q → Q d) : (d : Definition) → Q d
  | ⟨keywords, oneOf, anyOf, allOf, items, properties⟩ => by
    refine step _ ⟨?_, ?_, ?_, ?_, ?_⟩
    · rintro ds hds e he
      cases hds
      exact induction_list step ds e he
    · rintro ds hds e he
      cases hds
      exact induction_list step ds e he
    · rintro ds hds e he
      cases hds
      exact induction_list step ds e he
    · rintro e he
      cases he
      exact induction step e
    · rintro ps hps entry hentry
      cases hps
      exact induction_table step ps entry hentry

theorem induction_list (step : ∀ d, d.Inside Q → Q d) : (ds : List Definition) → ∀ e ∈ ds, Q e
  | [], _, h => absurd h List.not_mem_nil
  | d :: rest, e, h => by
    rcases List.mem_cons.mp h with heq | h
    · rw [heq]
      exact induction step d
    · exact induction_list step rest e h

theorem induction_table (step : ∀ d, d.Inside Q → Q d) :
    (ps : List (String × Definition)) → ∀ entry ∈ ps, Q entry.2
  | [], _, h => absurd h List.not_mem_nil
  | (name, d) :: rest, entry, h => by
    rcases List.mem_cons.mp h with heq | h
    · rw [heq]
      exact induction step d
    · exact induction_table step rest entry h

end

end Induction

theorem lowerBranches_eq (ds : List Definition) :
    lowerBranches ds = (ds.filter fun d => !d.isNullOnly).map lower := by
  induction ds with
  | nil => rfl
  | cons d rest ih =>
    rw [lowerBranches, ih]
    cases h : d.isNullOnly <;> simp [h]

theorem lowerList_eq (ds : List Definition) : lowerList ds = ds.map lower := by
  induction ds with
  | nil => rfl
  | cons d rest ih => rw [lowerList, ih, List.map_cons]

theorem lowerTable_eq (ps : List (String × Definition)) :
    lowerTable ps = Table.mapValues lower ps := by
  induction ps with
  | nil => rfl
  | cons entry rest ih => rw [lowerTable, ih, Table.mapValues, Table.mapValues, List.map_cons]

theorem hasNullBranch_eq (ds : List Definition) : hasNullBranch ds = ds.any isNullOnly := by
  induction ds with
  | nil => rfl
  | cons d rest ih => rw [hasNullBranch, ih, List.any_cons]

/-- The union branches that are not null-only. -/
def proper (ds : List Definition) : List Definition := ds.filter fun d => !d.isNullOnly

/-- What the schema objects inside a definition lower to. -/
def parts (d : Definition) : Lower.Parts where
  keywords := d.keywords
  branches := d.branches?.map fun ds => ((proper ds).map lower, ds.any isNullOnly)
  members := d.allOf.map fun ds => ds.map lower
  items := d.items.map lower
  properties := d.properties.map (Table.mapValues lower)

theorem lower_eq (d : Definition) : d.lower = d.parts.lower := by
  obtain ⟨keywords, oneOf, anyOf, allOf, items, properties⟩ := d
  unfold lower parts branches? proper
  funext shape location
  cases oneOf <;> cases anyOf <;> cases allOf <;> cases items <;> cases properties <;>
    simp [lowerBranches_eq, lowerList_eq, lowerTable_eq, hasNullBranch_eq]

theorem lower_simple {d : Definition} (hbranches : d.branches? = none) (hmembers : d.allOf = none) :
    d.lower = d.parts.simple := by
  rw [lower_eq]
  funext shape location
  simp only [Lower.Parts.lower, parts, hbranches, hmembers, Option.map_none]

/-- The parts have a property that what is inside lowers to. -/
theorem all_parts {P : Lowering → Prop} {d : Definition} (h : d.Inside fun e => P e.lower) :
    d.parts.All P where
  branches := by
    intro found hfound lowering hlowering
    obtain ⟨ds, hds, rfl⟩ := Option.map_eq_some_iff.mp hfound
    obtain ⟨e, he, rfl⟩ := List.mem_map.mp hlowering
    exact h.branches hds e (List.mem_filter.mp he).1
  members := by
    intro found hfound lowering hlowering
    obtain ⟨ds, hds, rfl⟩ := Option.map_eq_some_iff.mp hfound
    obtain ⟨e, he, rfl⟩ := List.mem_map.mp hlowering
    exact h.allOf ds hds e he
  items := by
    intro found hfound
    obtain ⟨e, he, rfl⟩ := Option.map_eq_some_iff.mp hfound
    exact h.items e he
  properties := by
    intro found hfound entry hentry
    obtain ⟨ps, hps, rfl⟩ := Option.map_eq_some_iff.mp hfound
    obtain ⟨given, hgiven, rfl⟩ := List.mem_map.mp hentry
    exact h.properties ps hps given hgiven

/-- A property of lowerings that passes from the parts to the whole. -/
theorem lower_of_parts {P : Lowering → Prop} (step : ∀ p : Lower.Parts, p.All P → P p.lower)
    (d : Definition) : P d.lower := by
  refine induction (Q := fun d => P d.lower) (fun d h => ?_) d
  rw [lower_eq]
  exact step _ (all_parts h)

end Definition

namespace Lower

open Simulation (succeeds)

variable {k : Keywords} {lowering : Lowering} {lowerings : List Lowering}
  {properties : List (String × Lowering)} {p : Parts}

theorem refl_succeeds {α : Type} (x : Except CompileError α) : succeeds.rel x x := fun _ h => h

theorem error_succeeds {α : Type} (e : CompileError) (x : Except CompileError α) :
    succeeds.rel (.error e) x := fun _ h => by cases h

theorem refuseForeign_succeeds (k : Keywords) (allowed : List String) (kind location other : String) :
    succeeds.rel (refuseForeign k allowed kind location) (refuseForeign k allowed kind other) := by
  unfold refuseForeign
  split
  · exact error_succeeds _ _
  · exact refl_succeeds _

theorem build_succeeds (kind : PrimitiveKind) (format : Option Format) (c : Constraints)
    (location other : String) :
    succeeds.rel (Primitive.build kind format c location) (Primitive.build kind format c other) := by
  unfold Primitive.build
  split
  · exact error_succeeds _ _
  · split
    · split
      · exact refl_succeeds _
      · exact error_succeeds _ _
    · exact refl_succeeds _

theorem primitive_succeeds (k : Keywords) (kind : PrimitiveKind) (fallback : Option Format)
    (nullable : Bool) (location other : String) :
    succeeds.rel (primitive k kind fallback nullable location)
      (primitive k kind fallback nullable other) := by
  unfold primitive
  split
  · exact error_succeeds _ _
  · split
    · exact error_succeeds _ _
    · exact succeeds.bind (build_succeeds _ _ _ _ _) fun _ => refl_succeeds _

theorem scalar_succeeds (k : Keywords) (kind : Scalar) (nullable : Bool) (location other : String) :
    succeeds.rel (scalar k kind nullable location) (scalar k kind nullable other) := by
  cases kind <;> exact primitive_succeeds _ _ _ _ _ _

theorem enumStrings_succeeds (values : List Json) (location other : String) :
    succeeds.rel (enumStrings values location) (enumStrings values other) := by
  unfold enumStrings
  split
  · exact error_succeeds _ _
  · suffices h : ∀ strings : List String,
        succeeds.rel (List.foldlM _ strings values) (List.foldlM _ strings values) from h []
    intro strings
    clear * -
    induction values generalizing strings with
    | nil => exact refl_succeeds _
    | cons value rest ih =>
      rw [List.foldlM_cons, List.foldlM_cons]
      refine Simulation.bind succeeds ?_ fun more => ih more
      cases value with
      | str s => exact refl_succeeds _
      | _ => exact error_succeeds _ _

theorem array_placeless (h : lowering.Placeless) (shape : FieldShape) (nullable : Bool)
    (location other : String) :
    succeeds.rel (array k lowering shape nullable location)
      (array k lowering shape nullable other) :=
  succeeds.bind (refuseForeign_succeeds _ _ _ _ _) fun _ =>
    succeeds.bind (h _ _ _) fun _ => refl_succeeds _

theorem declaredFields_placeless (h : ∀ entry ∈ properties, Lowering.Placeless entry.2)
    (declared : TypeFields) (owner other : String) :
    succeeds.rel (declaredFields properties owner declared)
      (declaredFields properties other declared) := by
  induction declared with
  | nil => exact refl_succeeds _
  | cons entry rest ih =>
    obtain ⟨name, rule⟩ := entry
    unfold declaredFields
    cases hget : Table.get? name properties with
    | none => exact error_succeeds _ _
    | some property =>
      exact succeeds.bind (h _ (Table.mem_of_get? hget) _ _ _) fun _ =>
        succeeds.bind ih fun _ => refl_succeeds _

theorem allFields_placeless (h : ∀ entry ∈ properties, Lowering.Placeless entry.2)
    (owner other : String) :
    succeeds.rel (allFields k owner properties) (allFields k other properties) := by
  induction properties with
  | nil => exact refl_succeeds _
  | cons entry rest ih =>
    have hrest := ih fun later hlater => h later (List.mem_cons_of_mem _ hlater)
    exact succeeds.bind (h entry List.mem_cons_self _ _ _) fun _ =>
      succeeds.bind hrest fun _ => refl_succeeds _

/-- Of the keywords the fields of an object ask for the required names alone. -/
theorem allFields_congr {k' : Keywords} (h : k'.requiredNames = k.requiredNames) (owner : String)
    (properties : List (String × Lowering)) :
    allFields k' owner properties = allFields k owner properties := by
  induction properties with
  | nil => rfl
  | cons entry rest ih =>
    obtain ⟨name, property⟩ := entry
    simp only [allFields, ih, h]

theorem objectFields_congr {k' : Keywords} (h : k'.requiredNames = k.requiredNames)
    (properties : List (String × Lowering)) (declared : Option TypeFields) (owner : String) :
    objectFields k' properties declared owner = objectFields k properties declared owner := by
  cases declared with
  | none => exact allFields_congr h owner properties
  | some fields => rfl

/-- An object asks, besides, for the constraints, which it refuses. -/
theorem object_congr {k' : Keywords} (hrequired : k'.requiredNames = k.requiredNames)
    (hconstraints : constraintKeywords k' = constraintKeywords k)
    (properties : List (String × Lowering)) (declared : Option TypeFields) (nullable : Bool)
    (location : String) :
    object k' properties declared nullable location =
      object k properties declared nullable location := by
  simp only [object, refuseForeign, hconstraints, objectFields_congr hrequired]

theorem object_placeless (h : ∀ entry ∈ properties, Lowering.Placeless entry.2)
    (declared : Option TypeFields) (nullable : Bool) (location other : String) :
    succeeds.rel (object k properties declared nullable location)
      (object k properties declared nullable other) := by
  refine succeeds.bind (refuseForeign_succeeds _ _ _ _ _) fun _ =>
    succeeds.bind ?_ fun _ => refl_succeeds _
  cases declared with
  | none => exact allFields_placeless h location other
  | some fields => exact declaredFields_placeless h fields location other

theorem shapeAlone_placeless : Lowering.Placeless shapeAlone
  | .unspecified, _, _ => error_succeeds _ _
  | .scalar kind, location, other => scalar_succeeds {} kind false location other
  | .named _, _, _ => refl_succeeds _
  | .inline fields, location, other =>
    object_placeless (fun _ h => absurd h List.not_mem_nil) (some fields) false location other
  | .array element, location, other =>
    succeeds.bind (shapeAlone_placeless element (location ++ "[]") (other ++ "[]")) fun _ =>
      refl_succeeds _

theorem numbered_placeless (h : ∀ lowering ∈ lowerings, Lowering.Placeless lowering)
    (location other : String) (i : Nat) :
    succeeds.rel (numbered location i lowerings) (numbered other i lowerings) := by
  induction lowerings generalizing i with
  | nil => exact refl_succeeds _
  | cons branch rest ih =>
    have hrest := ih fun later hlater => h later (List.mem_cons_of_mem _ hlater)
    exact succeeds.bind (h branch List.mem_cons_self _ _ _) fun _ =>
      succeeds.bind (hrest (i + 1)) fun _ => refl_succeeds _

theorem union_placeless (h : ∀ lowering ∈ lowerings, Lowering.Placeless lowering)
    (nullable : Bool) (shape : FieldShape) (location other : String) :
    succeeds.rel (union lowerings nullable shape location)
      (union lowerings nullable shape other) := by
  unfold union
  split
  · exact error_succeeds _ _
  · next branch =>
    exact succeeds.bind (h branch (List.mem_singleton_self branch) _ _ _) fun _ => refl_succeeds _
  · exact succeeds.bind (numbered_placeless h location other 0) fun _ => refl_succeeds _

theorem wrapper_placeless (h : ∀ lowering ∈ lowerings, Lowering.Placeless lowering)
    (nullable : Bool) (shape : FieldShape) (location other : String) :
    succeeds.rel (wrapper lowerings nullable shape location)
      (wrapper lowerings nullable shape other) := by
  unfold wrapper
  split
  · next member =>
    exact succeeds.bind (h member (List.mem_singleton_self member) _ _ _) fun _ => refl_succeeds _
  · exact error_succeeds _ _

namespace Parts

theorem All.placeless_simple (h : p.All Lowering.Placeless) (shape : FieldShape)
    (location other : String) :
    succeeds.rel (p.simple shape location) (p.simple shape other) := by
  rw [simple_eq, simple_eq]
  rcases decision_at (p := p) location other with ⟨error, hrefused⟩ | hsame
  · rw [hrefused]
    exact error_succeeds _ _
  · rw [← hsame]
    cases hdecision : p.decision shape location with
    | reference name => exact refl_succeeds _
    | refused error => exact error_succeeds _ _
    | enum values =>
      exact succeeds.bind (refuseForeign_succeeds _ _ _ _ _) fun _ =>
        succeeds.bind (enumStrings_succeeds values location other) fun _ => refl_succeeds _
    | array =>
      exact array_placeless (h.itemsOrShape shapeAlone_placeless) shape _ location other
    | object properties =>
      rw [decision_object hdecision]
      exact object_placeless h.getD_properties shape.fields? _ location other
    | primitive kind fallback => exact primitive_succeeds _ kind fallback _ location other

theorem All.placeless (h : p.All Lowering.Placeless) : Lowering.Placeless p.lower := by
  intro shape location other
  unfold Parts.lower
  split
  · next branches hasNull hbranches =>
    exact union_placeless (h.branches _ hbranches) _ shape location other
  · split
    · next members hmembers =>
      exact wrapper_placeless (h.members _ hmembers) _ shape location other
    · exact h.placeless_simple shape location other

end Parts

end Lower

namespace Definition

/-- A definition lowers to one node at all places, or at none. -/
theorem lower_ok_at {d : Definition} {shape : FieldShape} {location : String} {node : Node}
    (h : d.lower shape location = .ok node) (other : String) : d.lower shape other = .ok node :=
  lower_of_parts (fun _ => Lower.Parts.All.placeless) d shape location other node h

end Definition

end Conform
