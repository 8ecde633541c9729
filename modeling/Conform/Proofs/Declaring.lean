import Conform.Proofs.Overriding

/-!
# Declared fields

What a store declares for the fields of a type is checked field by field if
the definition of the type looks like an object. For any other definition with
a keyword that says what the type is, the declaration is not looked at, though
each field in it is missing from the definition.
-/

namespace Conform

open Cache

/-- The validator checks each declared field, which is a property of the definition. -/
def Validator.Checks (d : Definition) (declared : TypeFields) (v : Validator) : Prop :=
  ∀ entry ∈ declared, (d.property? entry.1).isSome = true ∧
    ∃ fields field, v.rule = .object fields ∧ (entry.1, field) ∈ fields ∧
      field.required = entry.2.required

namespace Lower

variable {properties : List (String × Lowering)} {declared : TypeFields}
  {fields : List (String × NodeField)} {location : String}

/-- Each declared field is a property. -/
theorem declaredFields_declared (h : declaredFields properties location declared = .ok fields) :
    ∀ entry ∈ declared, (Table.get? entry.1 properties).isSome = true := by
  induction declared generalizing fields with
  | nil => exact fun _ hentry => absurd hentry List.not_mem_nil
  | cons entry rest ih =>
    obtain ⟨property, node, more, hget, -, hmore, -⟩ := declaredFields_cons h
    exact List.forall_mem_cons.mpr ⟨by rw [hget]; rfl, ih hmore⟩

end Lower

theorem Definition.property?_eq (d : Definition) (name : String) :
    d.property? name = Table.get? name (d.properties.getD []) := by
  cases h : d.properties <;> simp [property?, h]

/-- A declared field that is a property makes the definition look like an object. -/
theorem Validator.Checks.isObjectLike {d : Definition} {declared : TypeFields} {v : Validator}
    (h : v.Checks d declared) : d.isObjectLike = true ∨ declared = [] := by
  cases declared with
  | nil => exact Or.inr rfl
  | cons entry rest =>
    obtain ⟨hproperty, -⟩ := h entry List.mem_cons_self
    refine Or.inl ?_
    cases hproperties : d.properties with
    | none => simp [Definition.property?, hproperties] at hproperty
    | some properties => simp [Definition.isObjectLike, hproperties]

theorem exists_ok_of_toBool {α β : Type} {x : Except α β} (h : x.toBool = true) :
    ∃ b, x = .ok b := by
  cases x with
  | error a => cases h
  | ok b => exact ⟨b, rfl⟩

namespace Store

variable {s t : Store} {c : Cache} {name : TypeName} {d : Definition} {declared : TypeFields}
  {node : Node} {v : Validator}

/-- A type whose fields are checked one by one checks all that are declared for it. -/
theorem checks_of_lowers {inherited : TypeName → Bool} (hfields : s.fields? name = some declared)
    (hd : s.definition? name = some d) (hobject : s.isObject name d = true)
    (hlowers : s.Lowers name node) (hbuilds : node.Builds s inherited true v) :
    v.Checks d declared := by
  obtain ⟨vs, hrule, hgoverned⟩ := governs_of_lowers hfields hd hobject hlowers hbuilds
  rw [Lowers, lower, hd] at hlowers
  simp only [hobject, if_true, hfields] at hlowers
  obtain ⟨fields, hdeclared, -⟩ := Lower.object_node hlowers
  intro entry hentry
  have hproperty := Lower.declaredFields_declared hdeclared entry hentry
  obtain ⟨field, hmem, hgoverns⟩ := hgoverned.of_mem hentry
  refine ⟨?_, vs, field, hrule, hmem, hgoverns.required⟩
  rw [Definition.lowerTable_eq, Table.get?_mapValues, Option.isSome_map] at hproperty
  rwa [Definition.property?_eq]

/-- The store without what it declares for the fields of a type. -/
def undeclare (s : Store) (name : TypeName) : Store :=
  { s with fields := ⟨Table.erase name s.fields.entries⟩ }

/-- A type whose fields are not checked one by one is lowered without what is declared for it. -/
theorem undeclare_lower (hd : s.definition? name = some d) (hobject : s.isObject name d = false) :
    (s.undeclare name).lower = s.lower := by
  funext other location
  by_cases hother : other = name
  · subst hother
    have hundeclared : (s.undeclare other).isObject other d = false := by
      have hnone : (s.undeclare other).fields? other = none := Table.get?_erase_self
      rw [isObject, Bool.or_eq_false_iff] at hobject
      rw [isObject, hnone, hobject.1]
      rfl
    have hsame : (s.undeclare other).definition? other = some d := hd
    rw [lower, lower, hsame, hd]
    simp only [hobject, hundeclared]
    rfl
  · have hfields : (s.undeclare name).fields? other = s.fields? other :=
      Table.get?_erase_of_ne hother
    have hsame : (s.undeclare name).definition? other = s.definition? other := rfl
    rw [lower, lower, hsame]
    simp only [isObject, hfields]
    rfl

theorem undeclare_require (hlower : (s.undeclare name).lower = s.lower) (depth : Nat) :
    (s.undeclare name).require (m := Compile) c.lookup depth = s.require c.lookup depth := by
  induction depth with
  | zero => rfl
  | succ depth ih =>
    funext other location
    rw [require, require, hlower, ih]
    rfl

/-- Types that are lowered alike are compiled alike. -/
theorem undeclare_compileTarget (hlower : (s.undeclare name).lower = s.lower) (c : Cache)
    (target : Target) (location : String) :
    (s.undeclare name).compileTarget c target location = s.compileTarget c target location := by
  have hlimit : (s.undeclare name).depthLimit = s.depthLimit := rfl
  have hrequire := undeclare_require (c := c) hlower s.depthLimit
  cases target with
  | named other =>
    simp only [compileTarget, compileNamed, hlimit, hrequire]
    rfl
  | inline d =>
    simp only [compileTarget, compileInline, hlimit, hrequire]
    rfl

end Store

namespace Session

variable {store : Store} {name : TypeName} {d : Definition} {declared : TypeFields} {v : Validator}

/--
After any calls, a compiled type checks each field that is declared for it just where its definition
looks like an object or none is declared; otherwise the declaration changes nothing that compiles.
-/
theorem compiled_checks_declared_iff (store : Store) (calls : List Call)
    (hname : store.isExcluded name = false) (hfields : store.fields? name = some declared)
    (hd : store.definition? name = some d)
    (h : ((after store calls).compiled name).1 = .ok v) :
    (v.Checks d declared ↔ d.isObjectLike = true ∨ declared = []) ∧
    (¬ v.Checks d declared → ∀ c target location,
      (store.undeclare name).compileTarget c target location =
        store.compileTarget c target location) := by
  obtain ⟨inherited, node, hlowers, hbuilds⟩ := compiled_builds hname h
  have hchecks (hobject : store.isObject name d = true) : v.Checks d declared :=
    Store.checks_of_lowers hfields hd hobject hlowers hbuilds
  refine ⟨⟨Validator.Checks.isObjectLike, ?_⟩, fun hnot c target location => ?_⟩
  · rintro (hlike | rfl)
    · exact hchecks (by rw [Store.isObject, hlike, Bool.true_or])
    · exact fun _ hentry => absurd hentry List.not_mem_nil
  · have hobject : store.isObject name d = false := Bool.eq_false_iff.mpr (mt hchecks hnot)
    exact Store.undeclare_compileTarget (Store.undeclare_lower hd hobject) c target location

/-- A store with a type of the given definition, and what is declared for its fields. -/
def declaringStore (d : Definition) (declared : TypeFields) : Store where
  document := { aliasStore.document with
    definitions := [(holderName, d), (maybeName, integerDefinition)] }
  fields := FieldTable.empty.declare holderName declared
  exclusions := Exclusions.empty

/-- What declares one field, which has to be there. -/
def declaringOnly (field : String) : TypeFields := [(field, ⟨true, none, .unspecified⟩)]

/-- An object with the declared field checks it. -/
theorem counted_checks_declared :
    let d : Definition := { properties := some [("n", integerDefinition)] }
    let store := declaringStore d (declaringOnly "n")
    store.isExcluded holderName = false ∧ store.fields? holderName = some (declaringOnly "n") ∧
      store.definition? holderName = some d ∧
      ∃ v, ((after store []).compiled holderName).1 = .ok v ∧ v.Checks d (declaringOnly "n") := by
  intro d store
  have hname : store.isExcluded holderName = false := by decide
  have hok : ((after store []).compiled holderName).1.toBool = true := by decide +kernel
  obtain ⟨v, h⟩ := exists_ok_of_toBool hok
  obtain ⟨hchecks, -⟩ := compiled_checks_declared_iff store [] hname rfl rfl h
  exact ⟨hname, rfl, rfl, v, h, hchecks.mpr (Or.inl rfl)⟩

/-- Definitions that do not look like objects, each with another keyword that says what they are. -/
def keyedDefinitions : List Definition :=
  [integerDefinition,
    plainDefinition { enumValues := some [.str "x"] },
    plainDefinition { reference := some maybeName.toReference },
    { items := some integerDefinition },
    { oneOf := some [integerDefinition, plainDefinition { kinds := some (.one "boolean") }] },
    { anyOf := some [integerDefinition] },
    { allOf := some [{ properties := some [("n", integerDefinition)] }] }]

/-- Each of them compiles with a declared field that it does not have. -/
theorem keyed_definitions_ignore_declared : keyedDefinitions.Forall fun d =>
    let store := declaringStore d (declaringOnly "ghost")
    store.isExcluded holderName = false ∧ store.fields? holderName = some (declaringOnly "ghost") ∧
      store.definition? holderName = some d ∧
      ∃ v, ((after store []).compiled holderName).1 = .ok v ∧
        ¬ v.Checks d (declaringOnly "ghost") := by
  have hcompiles : ∀ d ∈ keyedDefinitions,
      ((after (declaringStore d (declaringOnly "ghost")) []).compiled holderName).1.toBool = true ∧
        d.isObjectLike = false := by
    decide +kernel
  refine List.forall_iff_forall_mem.mpr fun d hd => ?_
  obtain ⟨hok, hlike⟩ := hcompiles d hd
  obtain ⟨v, h⟩ := exists_ok_of_toBool hok
  refine ⟨rfl, rfl, rfl, v, h, fun hchecks => ?_⟩
  rcases hchecks.isObjectLike with hlike' | hnone
  · rw [hlike] at hlike'
    cases hlike'
  · cases hnone

end Session

end Conform
