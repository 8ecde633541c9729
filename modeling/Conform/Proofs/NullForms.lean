import Conform.Proofs.Decision
import Conform.Proofs.Lowered

/-!
# Ways to write null

That null is accepted beside a schema object can be written as a branch that
admits only null, on a wrapper around the object, in its own `nullable`, or
among its kinds. However it is written, the node is that of the object with
null accepted as well, and a failure is that of the object.
-/

namespace Conform

/-- The node with null accepted beside its shape. -/
def Node.withNull (node : Node) : Node := { node with nullable := true }

/-- The keywords with other kinds and another word on null. -/
def Keywords.recast (k : Keywords) (kinds : Option Kinds) (nullable : Option Bool) : Keywords :=
  { k with kinds, nullable }

namespace Lower

variable {k : Keywords} {kinds : Option Kinds} {nullable : Option Bool} {accepted : Bool}
  {shape : FieldShape} {location : String} {p : Parts}

theorem map_bind {α β γ : Type} (x : Except CompileError α) (f : α → Except CompileError β)
    (g : β → γ) : (x >>= f).map g = x >>= fun a => (f a).map g := by
  cases x <;> rfl

theorem union_withNull (branches : List Lowering) (accepted : Bool) :
    union branches true shape location = (union branches accepted shape location).map .withNull := by
  match branches with
  | [] => rfl
  | [branch] => simp only [union, map_bind]; rfl
  | _ :: _ :: _ => simp only [union, map_bind]; rfl

theorem wrapper_withNull (members : List Lowering) (accepted : Bool) :
    wrapper members true shape location =
      (wrapper members accepted shape location).map .withNull := by
  match members with
  | [] => rfl
  | [member] => simp only [wrapper, map_bind]; rfl
  | _ :: _ :: _ => rfl

namespace Decision

/-- Of the node only the word on null is a matter of the kinds. -/
theorem node_recast (decision : Decision) :
    decision.node { p with keywords := p.keywords.recast kinds nullable } accepted shape location =
      decision.node p accepted shape location := by
  cases decision with
  | object properties =>
    have hrequired : (p.keywords.recast kinds nullable).requiredNames = p.keywords.requiredNames := rfl
    exact Lower.object_congr hrequired rfl properties shape.fields? accepted location
  | _ => rfl

theorem node_withNull (decision : Decision) (accepted : Bool) :
    decision.node p true shape location = (decision.node p accepted shape location).map .withNull := by
  cases decision with
  | reference name => rfl
  | refused error => rfl
  | enum values => simp only [node, map_bind]; rfl
  | array => simp only [node, Lower.array, map_bind]; rfl
  | object properties => simp only [node, Lower.object, map_bind]; rfl
  | primitive kind fallback =>
    simp only [node, Lower.primitive]
    split
    · rfl
    · split
      · rfl
      · simp only [map_bind]; rfl

end Decision

namespace Parts

/-- The decision is by the kinds other than null, and by null where there are no others. -/
theorem decision_recast (hkinds : (p.keywords.recast kinds nullable).kindList = p.keywords.kindList)
    (hnull : p.keywords.kindList = [] →
      (p.keywords.recast kinds nullable).listsNull = p.keywords.listsNull) :
    ({ p with keywords := p.keywords.recast kinds nullable } : Parts).decision shape location =
      p.decision shape location := by
  have hbehind : typeBehind? (p.keywords.recast kinds nullable) shape =
      typeBehind? p.keywords shape := by
    cases shape with
    | named name => simp only [typeBehind?, hkinds]; rfl
    | _ => rfl
  simp only [decision, hbehind, hkinds]
  cases hlist : p.keywords.kindList with
  | nil => simp only [hnull hlist]; rfl
  | cons kind rest => rfl

theorem simple_recast (hkinds : (p.keywords.recast kinds nullable).kindList = p.keywords.kindList)
    (hnull : p.keywords.kindList = [] →
      (p.keywords.recast kinds nullable).listsNull = p.keywords.listsNull)
    (haccepted : ((p.keywords.recast kinds nullable).nullableSet ||
      (p.keywords.recast kinds nullable).listsNull) = true) :
    ({ p with keywords := p.keywords.recast kinds nullable } : Parts).simple shape location =
      (p.simple shape location).map .withNull := by
  rw [simple_eq, simple_eq, decision_recast hkinds hnull, Decision.node_recast, haccepted]
  exact Decision.node_withNull _ _

end Parts

end Lower

namespace Definition

variable {d w : Definition} {before after : List Definition} {kinds : Kinds} {listed more : List String}
  {shape : FieldShape} {location : String}

/-- The definition with `nullable` set. -/
def marked (d : Definition) : Definition :=
  { d with keywords := { d.keywords with nullable := some true } }

/-- The definition with the kinds of a list. -/
def ofKinds (d : Definition) (kinds : List String) : Definition :=
  { d with keywords := { d.keywords with kinds := some (.many kinds) } }

theorem lower_marked (d : Definition) (shape : FieldShape) (location : String) :
    d.marked.lower shape location = (d.lower shape location).map .withNull := by
  have hbranches : d.marked.parts.branches = d.parts.branches := rfl
  have hmembers : d.marked.parts.members = d.parts.members := rfl
  rw [lower_eq, lower_eq, Lower.Parts.lower, Lower.Parts.lower, hbranches, hmembers]
  cases d.parts.branches with
  | some found => exact Lower.union_withNull found.1 _
  | none =>
    cases d.parts.members with
    | some members => exact Lower.wrapper_withNull members _
    | none =>
      have hkinds : (d.parts.keywords.recast d.keywords.kinds (some true)).kindList =
        d.parts.keywords.kindList := rfl
      exact Lower.Parts.simple_recast hkinds (fun _ => rfl) rfl

theorem bind_orNull (x : Except CompileError Node) :
    (x >>= fun node => .ok (node.orNull true)) = x.map .withNull := by
  cases x <;> rfl

theorem proper_of_nullOnly (hd : d.isNullOnly = false)
    (hnull : ∀ e ∈ before ++ after, e.isNullOnly = true) : proper (before ++ d :: after) = [d] := by
  have hdropped (ds : List Definition) (h : ∀ e ∈ ds, e.isNullOnly = true) : proper ds = [] := by
    simpa [proper] using h
  have hbefore := hdropped before fun e he => hnull e (List.mem_append_left _ he)
  have hafter := hdropped after fun e he => hnull e (List.mem_append_right _ he)
  simp only [proper, List.filter_append, List.filter_cons, hd] at hbefore hafter ⊢
  simp [hbefore, hafter]

/-- A union of one schema object and null-only ones, in any order, is that object or null. -/
theorem lower_union_null (hbranches : w.branches? = some (before ++ d :: after))
    (hd : d.isNullOnly = false) (hnull : ∀ e ∈ before ++ after, e.isNullOnly = true)
    (hsome : before ++ after ≠ []) :
    w.lower shape location = (d.lower shape location).map .withNull := by
  obtain ⟨e, he⟩ := List.exists_mem_of_ne_nil _ hsome
  have hmem : e ∈ before ++ d :: after := by
    rcases List.mem_append.mp he with he | he
    · exact List.mem_append_left _ he
    · exact List.mem_append_right _ (List.mem_cons_of_mem _ he)
  have hany : (before ++ d :: after).any isNullOnly = true :=
    List.any_eq_true.mpr ⟨e, hmem, hnull e he⟩
  have hparts : w.parts.branches = some ([d.lower], true) := by
    simp only [parts, hbranches, Option.map_some, proper_of_nullOnly hd hnull, hany, List.map_cons,
      List.map_nil]
  rw [lower_eq w, Lower.Parts.lower, hparts]
  simp only [Lower.union, Bool.or_true, bind_orNull]

/-- A nullable wrapper around a schema object is that object or null. -/
theorem lower_wrapper_null (hbranches : w.branches? = none) (hmembers : w.allOf = some [d])
    (hnullable : w.keywords.nullable = some true) :
    w.lower shape location = (d.lower shape location).map .withNull := by
  have hnone : w.parts.branches = none := by simp only [parts, hbranches, Option.map_none]
  have hsome : w.parts.members = some [d.lower] := by
    simp only [parts, hmembers, Option.map_some, List.map_cons, List.map_nil]
  have hset : w.parts.keywords.nullableSet = true := by
    simp only [parts, Keywords.nullableSet, hnullable, Option.getD_some]
  rw [lower_eq w, Lower.Parts.lower, hnone, hsome, hset]
  exact bind_orNull _

/-- Null among the kinds of a schema object that has others is the object or null. -/
theorem lower_ofKinds_null (hbranches : d.branches? = none) (hmembers : d.allOf = none)
    (hkinds : d.keywords.kinds = some kinds) (hgiven : kinds.nonNull ≠ [])
    (hlisted : kinds.toList = listed ++ more) :
    (d.ofKinds (listed ++ "null" :: more)).lower shape location =
      (d.lower shape location).map .withNull := by
  have hsame : (Kinds.many (listed ++ "null" :: more)).nonNull = kinds.nonNull := by
    rw [Kinds.nonNull, Kinds.nonNull, hlisted]
    simp [Kinds.toList]
  have hnull : (Kinds.many (listed ++ "null" :: more)).hasNull = true := by
    simp [Kinds.hasNull, Kinds.toList]
  have hlist : d.keywords.kindList = kinds.nonNull := by simp only [Keywords.kindList, hkinds]
  have hlisting : (d.ofKinds (listed ++ "null" :: more)).lower =
      (d.ofKinds (listed ++ "null" :: more)).parts.simple := lower_simple hbranches hmembers
  rw [hlisting, lower_simple hbranches hmembers]
  refine Lower.Parts.simple_recast (p := d.parts) ?_ ?_ ?_
  · exact hsame.trans hlist.symm
  · exact fun hempty => absurd (hlist.symm.trans hempty) hgiven
  · exact Bool.or_eq_true_iff.mpr (Or.inr hnull)

/--
A schema object or null, written as a union with null-only branches, as a nullable wrapper, by
`nullable`, or by null among the kinds, lowers to the node of the schema object with null accepted
as well, and fails as it fails.
-/
theorem null_forms_lower_alike (d : Definition) (shape : FieldShape) (location : String) :
    let orNull := (d.lower shape location).map fun node => { node with nullable := true }
    (∀ (w : Definition) before after, w.branches? = some (before ++ d :: after) → d.isNullOnly = false →
      (∀ e ∈ before ++ after, e.isNullOnly = true) → before ++ after ≠ [] →
        w.lower shape location = orNull) ∧
    (∀ w : Definition, w.branches? = none → w.allOf = some [d] → w.keywords.nullable = some true →
      w.lower shape location = orNull) ∧
    d.marked.lower shape location = orNull ∧
    ∀ kinds listed more, d.oneOf = none → d.anyOf = none → d.allOf = none →
      d.keywords.kinds = some kinds → kinds.nonNull ≠ [] → kinds.toList = listed ++ more →
        (d.ofKinds (listed ++ "null" :: more)).lower shape location =
          d.marked.lower shape location := by
  intro orNull
  refine ⟨?_, ?_, lower_marked d shape location, ?_⟩
  · intro w before after hbranches hd hnull hsome
    exact lower_union_null hbranches hd hnull hsome
  · intro w hbranches hmembers hnullable
    exact lower_wrapper_null hbranches hmembers hnullable
  · intro kinds listed more hone hany hmembers hkinds hgiven hlisted
    have hbranches : d.branches? = none := by simp only [branches?, hone, hany, Option.or_none]
    rw [lower_marked]
    exact lower_ofKinds_null hbranches hmembers hkinds hgiven hlisted

/-- What admits null and nothing else. -/
def nullAlone : Definition := { keywords := { kinds := some (.one "null") } }

/-- A text of at most eight characters. -/
def shortText : Definition := { keywords := { kinds := some (.one "string"), maxLength := some 8 } }

/-- A short text or null in each of the forms. -/
theorem short_text_or_null :
    let orNull := (shortText.lower .unspecified "Person.alias").map
      fun node => { node with nullable := true }
    (∃ node, orNull = .ok node) ∧
      ({ oneOf := some [shortText, nullAlone] } : Definition).lower .unspecified "Person.alias" =
        orNull ∧
      ({ anyOf := some [nullAlone, shortText, nullAlone] } : Definition).lower .unspecified
        "Person.alias" = orNull ∧
      ({ keywords := { nullable := some true }, allOf := some [shortText] } : Definition).lower
        .unspecified "Person.alias" = orNull ∧
      (shortText.ofKinds ["null", "string"]).lower .unspecified "Person.alias" =
        shortText.marked.lower .unspecified "Person.alias" := by
  intro orNull
  obtain ⟨hunion, hwrapper, -, hlisted⟩ :=
    null_forms_lower_alike shortText .unspecified "Person.alias"
  refine ⟨⟨_, rfl⟩, ?_, ?_, ?_, ?_⟩
  · exact hunion _ [] [nullAlone] rfl (by decide) (by decide) (by decide)
  · exact hunion _ [nullAlone] [nullAlone] rfl (by decide) (by decide) (by decide)
  · exact hwrapper _ rfl rfl rfl
  · exact hlisted (.one "string") [] ["string"] rfl rfl rfl rfl (by decide) rfl

end Definition

end Conform
