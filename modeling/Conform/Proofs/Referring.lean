import Conform.Proofs.Fresh
import Conform.Proofs.Resting

/-!
# References as targets

A definition with a reference, but neither items nor properties, is replaced by
the type that it names before anything is compiled. Null aside, the two are one
target: the type is asked for null itself, while a reference to it is asked
first, and a type that is left unvalidated takes null where no reference does.
-/

namespace Conform

open Cache

/-- The target is a type, or it is the definition itself. -/
theorem Target.ofDefinition_cases (d : Definition) :
    Target.ofDefinition d = .inline d ∨ ∃ name reference,
      Target.ofDefinition d = .named name ∧ d.keywords.reference = some reference ∧
        TypeName.ofReference reference = .ok name := by
  cases hreference : d.keywords.reference with
  | none => exact Or.inl (by simp [ofDefinition, hreference])
  | some reference =>
    cases hname : TypeName.ofReference reference with
    | error e => exact Or.inl (by simp [ofDefinition, hreference, hname])
    | ok name =>
      by_cases hbare : d.items.isNone = true ∧ d.properties.isNone = true
      · exact Or.inr ⟨name, reference, by simp [ofDefinition, hreference, hname, hbare], rfl, hname⟩
      · exact Or.inl (by simp_all [ofDefinition])

/-- All that the definition lowers to is a reference, which null may stand in for. -/
def Definition.RefersTo (d : Definition) (name : TypeName) : Prop :=
  ∀ location, d.lower .unspecified location = .ok (Node.of (.reference name) d.admitsNull)

/-- Beside a reference no keyword counts but those that stand before it. -/
theorem Definition.refersTo_of_reference {d : Definition} {reference : String} {name : TypeName}
    (hbranches : d.branches? = none) (hmembers : d.allOf = none)
    (hreference : d.keywords.reference = some reference)
    (hname : TypeName.ofReference reference = .ok name) : d.RefersTo name := by
  intro location
  rw [Definition.lower_eq]
  simp [Lower.Parts.lower, Lower.Parts.simple, parts, hbranches, hmembers, hreference, hname,
    admitsNull]

theorem Validator.apply_of_not_counts {v : Validator} {hop : Hop Option} {encoded : Bool}
    {path : FieldPath} {value : Json} (hrequired : v.required = true) (hnull : value ≠ .null)
    (hcounts : ¬ value.Counts encoded) : v.apply hop encoded path (some value) =
      some (Outcome.mismatch path .required v.rule.expected none) := by
  obtain ⟨required, nullable, rule⟩ := v
  obtain ⟨rfl, rfl⟩ := (Json.not_counts_iff hnull).mp hcounts
  cases hrequired
  unfold apply
  rfl

namespace Cache

variable {c c' : Cache} {v w : Validator} {name : TypeName} {encoded : Bool} {value : Json}
  {channel : Channel} {label label' : String}

/-- A reference to a cached type checks what is there by the rule of the type. -/
theorem outcome_of_named (hget : c.get? name = some v) (hrule : w.rule = .named name)
    (hcounts : value.Counts encoded) : c.outcome? w encoded value = c.outcome? v encoded value := by
  obtain ⟨required, nullable, rule⟩ := v
  obtain ⟨required', nullable', rule'⟩ := w
  cases hrule
  unfold outcome?
  rw [Validator.apply_of_counts hcounts, Validator.apply_of_counts hcounts]
  have hsettled : c.Settled encoded value (c.hopLimit value) := settled_hopLimit value
  -- the reference spends one hop, which the bound can spare
  change c.hop encoded _ name FieldPath.root value = _
  rw [← hsettled _ (Nat.le_succ _) name _ value (Json.Within.refl value), hop_of_cached hget]

theorem outcome_null (c : Cache) (v : Validator) (encoded : Bool) (hrequired : v.required = true) :
    c.outcome? v encoded .null = some (if v.nullable then Outcome.kept .null
      else Outcome.mismatch FieldPath.root .required v.rule.expected (some .null)) := by
  unfold outcome?
  rw [Validator.apply_present_null]
  simp [Check.missing, hrequired]

/-- Where checking what is there comes to the same, and so does null, all verdicts do. -/
theorem agree_of_counted (hrequired : v.required = true) (hrequired' : w.required = true)
    (hcounted : value.Counts encoded → c.outcome? v encoded value = c'.outcome? w encoded value)
    (hnull : value = .null → v.nullable = w.nullable) :
    Verdict.Agree (fun _ _ => True) (Verdict.ofOutcome channel label (c.outcome? v encoded value))
      (Verdict.ofOutcome channel label' (c'.outcome? w encoded value)) := by
  by_cases hcounts : value.Counts encoded
  · rw [hcounted hcounts]
    exact (Verdict.agree_ofOutcome _).mono fun _ _ _ => trivial
  · by_cases hvalue : value = .null
    · rw [hvalue, outcome_null c v encoded hrequired, outcome_null c' w encoded hrequired',
        hnull hvalue]
      cases w.nullable with
      | true => exact .accepted
      | false => exact .rejected trivial
    · unfold outcome?
      rw [Validator.apply_of_not_counts hrequired hvalue hcounts,
        Validator.apply_of_not_counts hrequired' hvalue hcounts]
      exact .rejected trivial

end Cache

namespace Store

variable {s : Store} {c : Cache} {name other : TypeName} {d : Definition} {nullable : Bool}
  {v : Validator} {location : String}

theorem needs_reference_iff : s.Needs (Node.of (.reference name) nullable) other ↔
    s.isExcluded name = false ∧ s.Reaches name other := by
  constructor
  · rintro ⟨start, hstart, hvalidated, hreach⟩
    cases List.mem_singleton.mp hstart
    exact ⟨hvalidated, hreach⟩
  · rintro ⟨hvalidated, hreach⟩
    exact ⟨name, List.mem_singleton_self name, hvalidated, hreach⟩

/-- A definition that refers to a type compiles with it. -/
theorem canCompile_of_refers (h : d.RefersTo name) :
    s.CanCompile (.named name) ↔ s.CanCompile (.inline d) := by
  constructor
  · intro hcan
    refine ⟨_, h, ?_, fun other hneeded => ?_⟩
    · intro source hsource
      cases hsource
    · obtain ⟨hvalidated, hreach⟩ := needs_reference_iff.mp hneeded
      rcases hcan with hexcluded | hcompilable
      · rw [hexcluded] at hvalidated
        cases hvalidated
      · exact hcompilable other hreach
  · rintro ⟨node, hlower, -, hneeded⟩
    cases Except.ok.inj ((h name.text).symm.trans (hlower name.text))
    cases hname : s.isExcluded name with
    | true => exact Or.inl hname
    | false => exact Or.inr fun other hreach => hneeded other (needs_reference_iff.mpr ⟨hname, hreach⟩)

theorem reference_builds {rule : Rule} (nullable : Bool)
    (h : NodeShape.Builds s s.ownNullable (.reference name) rule) :
    (Node.of (.reference name) nullable).Builds s s.ownNullable true
      ⟨true, nullable || (!s.isExcluded name && s.ownNullable name), rule⟩ := by
  have hbuilds : Node.Builds s s.ownNullable (Node.of (.reference name) nullable) true
      ⟨true, (Node.of (.reference name) nullable).admitsNull s s.ownNullable, rule⟩ := .mk h
  simpa [Node.of, Node.admitsNull, NodeShape.inherits] using hbuilds

/-- What a definition that refers to a type compiles to: a call, nullable as either is marked. -/
theorem compileInline_of_refers (h : d.RefersTo name) (hname : s.isExcluded name = false)
    (hrun : s.compileInline Cache.empty d location = .ok (v, c)) :
    Literal s c ∧ c.contains name = true ∧
      v = ⟨true, d.admitsNull || s.ownNullable name, .named name⟩ := by
  obtain ⟨node, hlower, hfreshly⟩ := compileInline_freshly hrun
  cases Except.ok.inj ((h location).symm.trans hlower)
  have hcall := reference_builds d.admitsNull (.named hname)
  cases Node.Builds.unique _ hfreshly.builds hcall
  refine ⟨hfreshly.literal, hfreshly.calls name (List.mem_singleton_self name), ?_⟩
  simp [hname]

/-- Anything that is there suits a reference to a type that is left unvalidated. -/
theorem compileInline_of_excluded (h : d.RefersTo name) (hname : s.isExcluded name = true)
    (hrun : s.compileInline Cache.empty d location = .ok (v, c)) :
    v = ⟨true, d.admitsNull, .accept name⟩ := by
  obtain ⟨node, hlower, hfreshly⟩ := compileInline_freshly hrun
  cases Except.ok.inj ((h location).symm.trans hlower)
  have haccept := reference_builds d.admitsNull (.accept hname)
  rw [Node.Builds.unique _ hfreshly.builds haccept]
  simp [hname]

end Store

/-- The type is nullable, marked so itself or only another name for a marked one. -/
def Store.TakesNull (s : Store) (name : TypeName) : Prop :=
  ∀ node, s.Lowers name node → node.admitsNull s s.ownNullable = true

/-- The type is validated, and takes null as the definition that refers to it does. -/
structure Store.SameNull (s : Store) (d : Definition) (name : TypeName) : Prop where
  validated : s.isExcluded name = false
  marked : d.admitsNull = true → s.TakesNull name
  unmarked : d.admitsNull = false → s.ShowsNull name

namespace Session

variable {store : Store} {d : Definition} {name : TypeName} {value : Json} {channel : Channel}

theorem agree_of_refers (h : d.RefersTo name) (hname : store.isExcluded name = false)
    (hnull : value = .null → store.SameNull d name) :
    Verdict.Agree (fun _ _ => True) ((ofStore store).validate value (.named name) channel).1
      ((ofStore store).validate value (.inline d) channel).1 := by
  refine agree_of_fresh (Store.canCompile_of_refers h) fun v c w c' hrun hrun' => ?_
  obtain ⟨hget, node, hlowers, hfreshly⟩ := Store.compileNamed_freshly hname hrun
  obtain ⟨hliteral, hcontains, rfl⟩ := Store.compileInline_of_refers h hname hrun'
  obtain ⟨w, hget'⟩ := contains_iff.mp hcontains
  cases hfreshly.literal.agrees hliteral hget hget'
  refine agree_of_counted hfreshly.builds.required rfl (fun hcounts => ?_) fun hvalue => ?_
  · rw [outcome_of_named hget' rfl hcounts]
    exact outcome_of_literal hfreshly.literal hliteral hfreshly.calls
      (fun _ => hliteral.coherent.calls hget') _ value
  · have hnull := hnull hvalue
    have hnullable : v.nullable = node.admitsNull store store.ownNullable := by
      cases hfreshly.builds
      rfl
    rw [hnullable]
    cases hd : d.admitsNull with
    | true => rw [hnull.marked hd node hlowers]; rfl
    | false => rw [(hnull.unmarked hd).admitsNull hlowers, ← hlowers.ownNullable]; rfl

theorem agree_of_refers_excluded (h : d.RefersTo name) (hname : store.isExcluded name = true)
    (hvalue : value ≠ .null) :
    Verdict.Agree (fun _ _ => True) ((ofStore store).validate value (.named name) channel).1
      ((ofStore store).validate value (.inline d) channel).1 := by
  refine agree_of_fresh (Store.canCompile_of_refers h) fun v c w c' hrun hrun' => ?_
  have haccept := Store.compileNamed_excluded (c := Cache.empty) rfl hname
  cases haccept.symm.trans hrun
  cases Store.compileInline_of_excluded h hname hrun'
  refine agree_of_counted rfl rfl (fun hcounts => ?_) fun hnull => absurd hnull hvalue
  unfold outcome? Store.acceptAll
  rw [Validator.apply_of_counts hcounts, Validator.apply_of_counts hcounts]
  rfl

theorem null_of_excluded (hname : store.isExcluded name = true) :
    ((ofStore store).validate .null (.named name) channel).1 = .accepted .null := by
  have hrun := Store.compileNamed_excluded (c := Cache.empty) rfl hname
  rw [validate_ofStore, Store.compileTarget, hrun, verdictOf, outcome_null _ _ _ rfl]
  rfl

/-- A reference to a type that is left unvalidated is still required. -/
theorem null_of_refers_excluded (h : d.RefersTo name) (hname : store.isExcluded name = true) :
    ((ofStore store).validate .null (.inline d) channel).1 = if d.admitsNull then .accepted .null
      else .rejected ⟨channel, (Target.inline d).label,
        [Issue.mismatch FieldPath.root .required name.text (some .null)]⟩ := by
  obtain ⟨v, c, hrun⟩ := (Store.compileTarget_succeeds_iff (Coherent.empty store) (.inline d)
    (locationOf channel)).mpr ((Store.canCompile_of_refers h).mp (Or.inl hname))
  have hv := Store.compileInline_of_excluded h hname hrun
  subst hv
  rw [validate_ofStore, hrun, verdictOf, outcome_null _ _ _ rfl]
  cases d.admitsNull <;> rfl

/--
A definition that is replaced by the type it names, and has no union and no wrapper beside the
reference, gets the verdicts of that type: on all but null, and on null where the type takes it as
the definition does. A type that is left unvalidated takes null, and a reference to it does so only
if marked.
-/
theorem ofDefinition_agrees_with_definition
    (halone : ∀ name, Target.ofDefinition d = .named name → d.branches? = none ∧ d.allOf = none)
    (value : Json) (channel : Channel) :
    let referred v := ((ofStore store).validate v (Target.ofDefinition d) channel).1
    let inline v := ((ofStore store).validate v (.inline d) channel).1
    ((value = .null → ∀ name, Target.ofDefinition d = .named name → store.SameNull d name) →
      Verdict.Agree (fun _ _ => True) (referred value) (inline value)) ∧
    ∀ name, Target.ofDefinition d = .named name → store.isExcluded name = true →
      referred .null = .accepted .null ∧
      inline .null = if d.admitsNull then .accepted .null
        else .rejected ⟨channel, (Target.inline d).label,
          [Issue.mismatch FieldPath.root .required name.text (some .null)]⟩ := by
  intro referred inline
  rcases Target.ofDefinition_cases d with hinline | ⟨name, reference, hnamed, hreference, hname⟩
  · refine ⟨fun _ => ?_, fun name hnamed => ?_⟩
    · simp only [referred, inline, hinline]
      exact .refl (fun _ => trivial) _
    · rw [hinline] at hnamed
      cases hnamed
  · obtain ⟨hbranches, hmembers⟩ := halone name hnamed
    have hrefers := Definition.refersTo_of_reference hbranches hmembers hreference hname
    simp only [referred, hnamed]
    refine ⟨fun hnull => ?_, fun other hother hexcluded => ?_⟩
    · cases hexcluded : store.isExcluded name with
      | false => exact agree_of_refers hrefers hexcluded fun hvalue => hnull hvalue name rfl
      | true =>
        refine agree_of_refers_excluded hrefers hexcluded fun hvalue => ?_
        rw [(hnull hvalue name rfl).validated] at hexcluded
        cases hexcluded
    · cases hother
      exact ⟨null_of_excluded hexcluded, null_of_refers_excluded hrefers hexcluded⟩

theorem ofDefinition_referenceTo (name : TypeName) :
    Target.ofDefinition (referenceTo name) = .named name := by
  simp [Target.ofDefinition, referenceTo, plainDefinition, TypeName.ofReference_toReference]

/-- A reference to a nullable text takes null like the text. -/
theorem reference_agrees_on_null :
    (∀ name, Target.ofDefinition (referenceTo maybeName) = .named name →
      (referenceTo maybeName).branches? = none ∧ (referenceTo maybeName).allOf = none) ∧
    Verdict.Agree (fun _ _ => True)
      ((ofStore aliasStore).validate .null (Target.ofDefinition (referenceTo maybeName)) .body).1
      ((ofStore aliasStore).validate .null (.inline (referenceTo maybeName)) .body).1 := by
  have halone : ∀ name, Target.ofDefinition (referenceTo maybeName) = .named name →
      (referenceTo maybeName).branches? = none ∧ (referenceTo maybeName).allOf = none :=
    fun _ _ => ⟨rfl, rfl⟩
  refine ⟨halone, (ofDefinition_agrees_with_definition halone .null .body).1 ?_⟩
  intro _ name hname
  rw [ofDefinition_referenceTo] at hname
  cases hname
  have hmarked : aliasStore.ownNullable maybeName = true := by decide +kernel
  have hunmarked : (referenceTo maybeName).admitsNull ≠ true := by decide
  refine ⟨by decide, fun h => absurd h hunmarked, fun _ target nullable hlowers _ _ => ?_⟩
  exact hlowers.ownNullable.symm.trans hmarked

/-- A store that leaves the text unvalidated. -/
def openStore : Store := { aliasStore with exclusions := Exclusions.empty.register maybeName }

/-- As a target the unvalidated type takes null, behind a reference it does not. -/
theorem open_reference_told_apart : ¬ Verdict.Agree (fun _ _ => True)
    ((ofStore openStore).validate .null (Target.ofDefinition (referenceTo maybeName)) .body).1
    ((ofStore openStore).validate .null (.inline (referenceTo maybeName)) .body).1 := by
  intro hagree
  have hreferred : Verdict.isAccepted ((ofStore openStore).validate .null
      (Target.ofDefinition (referenceTo maybeName)) .body).1 = true := by decide +kernel
  have hinline : Verdict.isAccepted ((ofStore openStore).validate .null
      (.inline (referenceTo maybeName)) .body).1 = false := by decide +kernel
  rw [hagree.isAccepted_eq, hinline] at hreferred
  cases hreferred

end Session

end Conform
