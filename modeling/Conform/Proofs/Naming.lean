import Conform.Proofs.Fresh

/-!
# Types and their definitions

A type is read from its definition as the same definition without a name is
read, objects aside: a definition that looks like an object is one as soon as
it has a name, whatever other keyword would decide without.
-/

namespace Conform

/-- The kind of objects, with or without null. -/
def Kinds.object (orNull : Bool) : Kinds := .many (if orNull then ["object", "null"] else ["object"])

namespace Definition

variable {d : Definition} {location : String}

/-- A definition that is read as an object with a name and without: no other keyword decides first. -/
structure IsPlainObject (d : Definition) : Prop where
  branches : d.branches? = none
  members : d.allOf = none
  reference : d.keywords.reference = none
  values : d.keywords.enumValues = none
  kind : d.keywords.kindList = ["object"] ∨ d.keywords.kindList = [] ∧
    d.keywords.listsNull = false ∧ d.items = none ∧ d.properties.isSome = true

/-- What a definition says of an object, and nothing else. -/
def objectAlone (d : Definition) : Definition where
  keywords := { d.keywords with
    kinds := some (.object d.keywords.listsNull), enumValues := none, reference := none }
  properties := d.properties

/-- The definition as which a named type is read. -/
def asType (d : Definition) : Definition := if d.isObjectLike then d.objectAlone else d

theorem objectAlone_isPlain (d : Definition) : d.objectAlone.IsPlainObject where
  branches := rfl
  members := rfl
  reference := rfl
  values := rfl
  kind := by
    change (Kinds.object d.keywords.listsNull).nonNull = _ ∨ _
    cases d.keywords.listsNull <;> exact Or.inl (by decide)

theorem objectAlone_admitsNull (d : Definition) : d.objectAlone.admitsNull = d.admitsNull := by
  have hlists : (Kinds.object d.keywords.listsNull).hasNull = d.keywords.listsNull := by
    cases d.keywords.listsNull <;> decide
  change (d.keywords.nullableSet || (Kinds.object d.keywords.listsNull).hasNull) = _
  rw [hlists]
  rfl

theorem object_objectAlone (d : Definition) (properties : List (String × Lowering))
    (nullable : Bool) (location : String) :
    Lower.object d.objectAlone.keywords properties none nullable location =
      Lower.object d.keywords properties none nullable location := by
  have hrequired : d.objectAlone.keywords.requiredNames = d.keywords.requiredNames := rfl
  exact Lower.object_congr hrequired rfl properties none nullable location

theorem IsPlainObject.lower_eq (h : d.IsPlainObject) (location : String) :
    d.lower .unspecified location = Lower.object d.keywords
      (lowerTable (d.properties.getD [])) none d.admitsNull location := by
  rw [lower_simple h.branches h.members, lowerTable_eq]
  -- with the kind given the properties may be missing, without it they make the object
  rcases h.kind with hkind | ⟨hkind, hlists, hitems, hsome⟩
  · have hproperties : (d.properties.map (Table.mapValues lower)).getD [] =
        Table.mapValues lower (d.properties.getD []) := by
      cases d.properties <;> rfl
    simp [Lower.Parts.simple, parts, h.reference, h.values, hkind, hproperties, admitsNull,
      FieldShape.fields?]
  · obtain ⟨properties, hproperties⟩ := Option.isSome_iff_exists.mp hsome
    simp [Lower.Parts.simple, Lower.Parts.untyped, parts, h.reference, h.values, hkind, hlists, hitems,
      hproperties, admitsNull, FieldShape.fields?]

end Definition

namespace Store

variable {s : Store} {name : TypeName} {d : Definition}

/-- Naming an object leaves nothing but what it says of objects. -/
theorem lower_eq_asType (hfields : s.fields? name = none) (hd : s.definition? name = some d)
    (location : String) : s.lower name location = d.asType.lower .unspecified name.text := by
  have hobject : s.isObject name d = d.isObjectLike := by simp [isObject, hfields]
  unfold lower Definition.asType
  simp only [hd, hobject, hfields]
  cases d.isObjectLike with
  | false => rfl
  | true =>
    simp only [if_true]
    rw [d.objectAlone_isPlain.lower_eq, d.objectAlone_admitsNull, Definition.object_objectAlone]
    rfl

theorem lower_eq_plain (hfields : s.fields? name = none) (hd : s.definition? name = some d)
    (hplain : d.isObjectLike = true → d.IsPlainObject) (location : String) :
    s.lower name location = d.lower .unspecified name.text := by
  rw [lower_eq_asType hfields hd]
  unfold Definition.asType
  cases h : d.isObjectLike with
  | false => rfl
  | true =>
    rw [if_pos rfl, (hplain h).lower_eq, d.objectAlone_isPlain.lower_eq, d.objectAlone_admitsNull,
      Definition.object_objectAlone]
    rfl

end Store

namespace Session

variable {store : Store} {name : TypeName} {d : Definition}

/-- A validated type and a definition of one node get one verdict. -/
theorem agree_of_lowers_alike (hname : store.isExcluded name = false)
    (h : store.lower name name.text = d.lower .unspecified name.text) (value : Json)
    (channel : Channel) :
    Verdict.Agree Report.SameIssues ((ofStore store).validate value (.named name) channel).1
      ((ofStore store).validate value (.inline d) channel).1 := by
  refine agree_of_fresh ?_ fun v c v' c' hrun hrun' => ?_
  · change (store.isExcluded name = true ∨ store.Compilable name) ↔ _
    rw [hname, Store.compilable_iff]
    constructor
    · rintro (hexcluded | ⟨node, hlowers, hneeded⟩)
      · cases hexcluded
      · exact ⟨node, Definition.lower_ok_at (h.symm.trans hlowers), hneeded⟩
    · rintro ⟨node, hlower, hneeded⟩
      exact Or.inr ⟨node, h.trans (hlower name.text), hneeded⟩
  · obtain ⟨-, node, hlowers, hfreshly⟩ := Store.compileNamed_freshly hname hrun
    obtain ⟨node', hlower, hfreshly'⟩ := Store.compileInline_freshly hrun'
    have hsame : d.lower .unspecified (locationOf channel) = .ok node :=
      Definition.lower_ok_at (h.symm.trans hlowers) _
    cases Except.ok.inj (hsame.symm.trans hlower)
    have houtcome := hfreshly.outcome_eq hfreshly' channel.stringEncoded value
    simp only [verdictOf, houtcome]
    exact Verdict.agree_ofOutcome _

/--
A type without declared fields gets the verdicts of the definition it is read as, and those of its
own definition unless that looks like an object and another keyword decides what it is.
-/
theorem named_agrees_with_definition (hname : store.isExcluded name = false)
    (hfields : store.fields? name = none) (hd : store.definition? name = some d) (value : Json)
    (channel : Channel) :
    let named := ((ofStore store).validate value (.named name) channel).1
    let unnamed e := ((ofStore store).validate value (.inline e) channel).1
    Verdict.Agree Report.SameIssues named (unnamed d.asType) ∧
      ((d.isObjectLike = true → d.IsPlainObject) →
        Verdict.Agree Report.SameIssues named (unnamed d)) := by
  intro named unnamed
  refine ⟨agree_of_lowers_alike hname ?_ value channel, fun hplain =>
    agree_of_lowers_alike hname ?_ value channel⟩
  · exact Store.lower_eq_asType hfields hd name.text
  · exact Store.lower_eq_plain hfields hd hplain name.text

/-- Null is missing from the field of a holder, named or not. -/
theorem holder_agrees_with_definition : aliasStore.isExcluded holderName = false ∧
    aliasStore.fields? holderName = none ∧
    aliasStore.definition? holderName = some holderDefinition ∧
    Verdict.Agree Report.SameIssues
      ((ofStore aliasStore).validate (.obj [("m", .null)]) (.named holderName) .body).1
      ((ofStore aliasStore).validate (.obj [("m", .null)]) (.inline holderDefinition) .body).1 := by
  have hvalidated : aliasStore.isExcluded holderName = false := by decide
  have hdefined : aliasStore.definition? holderName = some holderDefinition := rfl
  have hplain : holderDefinition.isObjectLike = true → holderDefinition.IsPlainObject :=
    fun _ => ⟨rfl, rfl, rfl, rfl, Or.inl rfl⟩
  refine ⟨hvalidated, rfl, hdefined, ?_⟩
  exact (named_agrees_with_definition hvalidated rfl hdefined (.obj [("m", .null)]) .body).2 hplain

def wordName : TypeName := ⟨"Word", by decide⟩

def wordDefinition : Definition := plainDefinition { kinds := some (.one "string") }

/-- Definitions that look like objects, and are a text or a list of texts without a name. -/
def overlaidObjects : List Definition :=
  let object : Keywords := { kinds := some (.one "object") }
  [{ keywords := object, oneOf := some [wordDefinition] },
    { keywords := object, anyOf := some [wordDefinition] },
    { keywords := object, allOf := some [wordDefinition] },
    { keywords := { object with reference := some wordName.toReference } },
    { keywords := { object with enumValues := some [.str "x"] } },
    { wordDefinition with properties := some [] },
    { items := some wordDefinition, properties := some [] }]

/-- A store with a type of the given definition. -/
def storeOf (name : TypeName) (d : Definition) : Store where
  document :=
    { definitions := [(name, d), (wordName, wordDefinition)], operations := Operations.empty }
  fields := FieldTable.empty
  exclusions := Exclusions.empty

/-- With a name each of them is an object, which no text is. -/
theorem overlaid_objects_told_apart : overlaidObjects.Forall fun d =>
    ¬ Verdict.Agree Report.SameIssues
      ((ofStore (storeOf holderName d)).validate (.str "x") (.named holderName) .query).1
      ((ofStore (storeOf holderName d)).validate (.str "x") (.inline d) .query).1 := by
  have hanswers : ∀ d ∈ overlaidObjects,
      Verdict.isAccepted
        ((ofStore (storeOf holderName d)).validate (.str "x") (.named holderName) .query).1 = false ∧
      Verdict.isAccepted
        ((ofStore (storeOf holderName d)).validate (.str "x") (.inline d) .query).1 = true := by
    decide +kernel
  refine List.forall_iff_forall_mem.mpr fun d hd hagree => ?_
  obtain ⟨hnamed, hunnamed⟩ := hanswers d hd
  rw [hagree.isAccepted_eq, hunnamed] at hnamed
  cases hnamed

end Session

end Conform
