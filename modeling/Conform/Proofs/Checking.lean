import Conform.Proofs.Conformance

/-!
# The parts of a check

What a check that ends has done, said once for each kind of rule: the branch
that a union took, the outcomes of the items of an array and of the declared
fields of an object. Proofs about checks go by induction on the rule and cite
these, so none of them follows the traversal itself.
-/

namespace Conform

/-- The validators inside a rule. -/
def Rule.inner : Rule → List Validator
  | .union branches => branches
  | .array element _ _ => [element]
  | .object fields => fields.map Prod.snd
  | _ => []

section Induction

variable {Q : Rule → Prop}

mutual

/-- A property of all rules, from what is inside them. -/
theorem Rule.induction (step : ∀ rule : Rule, (∀ v ∈ rule.inner, Q v.rule) → Q rule) :
    (rule : Rule) → Q rule
  | .union branches => step _ (Rule.induction_branches step branches)
  | .array ⟨required, nullable, rule⟩ low high => by
    refine step _ fun v hv => ?_
    cases List.mem_singleton.mp hv
    exact Rule.induction step rule
  | .object fields => step _ (Rule.induction_fields step fields)
  | .accept _ => step _ nofun
  | .string _ => step _ nofun
  | .number _ => step _ nofun
  | .boolean => step _ nofun
  | .enum _ => step _ nofun
  | .named _ => step _ nofun

theorem Rule.induction_branches (step : ∀ rule : Rule, (∀ v ∈ rule.inner, Q v.rule) → Q rule) :
    (branches : List Validator) → ∀ v ∈ branches, Q v.rule
  | [], _, h => absurd h List.not_mem_nil
  | ⟨required, nullable, rule⟩ :: rest, v, h => by
    rcases List.mem_cons.mp h with rfl | h
    · exact Rule.induction step rule
    · exact Rule.induction_branches step rest v h

theorem Rule.induction_fields (step : ∀ rule : Rule, (∀ v ∈ rule.inner, Q v.rule) → Q rule) :
    (fields : List (String × Validator)) → ∀ v ∈ fields.map Prod.snd, Q v.rule
  | [], _, h => absurd h List.not_mem_nil
  | (name, ⟨required, nullable, rule⟩) :: rest, v, h => by
    rcases List.mem_cons.mp h with rfl | h
    · exact Rule.induction step rule
    · exact Rule.induction_fields step rest v h

end

end Induction

namespace Json

/-- A string, a number or a boolean. -/
def isScalar : Json → Bool
  | .bool _ | .num _ | .str _ => true
  | _ => false

/-- The value may be left out: it is null or, on a string channel, the text `undefined`. -/
def Omittable (encoded : Bool) (v : Json) : Prop :=
  v = .null ∨ encoded = true ∧ v = .str "undefined"

end Json

section

variable {hop : Hop Option} {encoded : Bool} {path : FieldPath} {v : Json} {o : Outcome}

/-- An array rule sees the items of an array or, on a string channel, a scalar as the only item. -/
theorem Check.items?_cases {items : List Json} (hv : v ≠ .null)
    (h : Check.items? encoded v = some items) :
    v = .arr items ∨ encoded = true ∧ v.isScalar = true ∧ items = [v] := by
  cases v with
  | null => exact absurd rfl hv
  | arr given =>
    cases h
    exact Or.inl rfl
  | obj given => cases h
  | _ =>
    cases encoded with
    | false => cases h
    | true =>
      cases h
      exact Or.inr ⟨rfl, rfl, rfl⟩

/-- The value is there and the rule decides, or it is a null that is kept, or it may be left out. -/
theorem Validator.apply_cases {validator : Validator} {found : Option Json}
    (h : validator.apply hop encoded path found = some o) :
    (∃ v, found = some v ∧ v.Counts encoded ∧ validator.rule.check hop encoded path v = some o) ∨
    (found = some .null ∧ validator.nullable = true ∧ o = Outcome.kept .null) ∨
    ((∀ v, found = some v → v.Omittable encoded) ∧ ∃ shown, received shown = received found ∧
      o = Check.missing validator.required validator.rule.expected path shown) := by
  obtain ⟨required, nullable, rule⟩ := validator
  cases found with
  | none =>
    refine Or.inr (Or.inr ⟨nofun, none, rfl, ?_⟩)
    exact (Option.some.inj h).symm
  | some v =>
    by_cases hnull : v = .null
    · subst hnull
      cases nullable with
      | true => exact Or.inr (Or.inl ⟨rfl, rfl, (Option.some.inj h).symm⟩)
      | false =>
        refine Or.inr (Or.inr ⟨fun w hw => ?_, some .null, rfl, (Option.some.inj h).symm⟩)
        cases hw
        exact Or.inl rfl
    · by_cases hcounts : v.Counts encoded
      · rw [Validator.apply_of_counts hcounts] at h
        exact Or.inl ⟨v, rfl, hcounts, h⟩
      · obtain ⟨rfl, rfl⟩ := (Json.not_counts_iff hnull).mp hcounts
        refine Or.inr (Or.inr ⟨fun w hw => ?_, none, rfl, (Option.some.inj h).symm⟩)
        cases hw
        exact Or.inr ⟨rfl, rfl⟩

/-- A union answers with an accepting branch, or complains itself. -/
theorem Rule.check_union_cases {branches : List Validator}
    (h : (Rule.union branches).check hop encoded path v = some o) :
    (∃ branch ∈ branches, branch.apply hop encoded path (some v) = some o ∧ o.accepted = true) ∨
    o = Outcome.mismatch path .noMatchingBranch (Rule.union branches).expected (some v) := by
  have hfirst : ∀ branches : List Validator,
      Rule.firstAccepted hop encoded branches path v = some (some o) →
      ∃ branch ∈ branches, branch.apply hop encoded path (some v) = some o ∧ o.accepted = true := by
    intro branches
    induction branches with
    | nil => exact nofun
    | cons branch rest ih =>
      intro h
      rw [Rule.firstAccepted] at h
      obtain ⟨outcome, happly, h⟩ := Option.bind_eq_some_iff.mp h
      split at h
      · next haccepted =>
        cases h
        exact ⟨branch, List.mem_cons_self, happly, haccepted⟩
      · obtain ⟨other, hmem, hother⟩ := ih h
        exact ⟨other, List.mem_cons_of_mem _ hmem, hother⟩
  rw [Rule.check] at h
  obtain ⟨found, hfound, h⟩ := Option.bind_eq_some_iff.mp h
  cases found with
  | none => exact Or.inr (Option.some.inj h).symm
  | some outcome =>
    cases h
    exact Or.inl (hfirst branches hfound)

/-- Every item has its outcome, found at its index. -/
theorem Check.elements_indexed {check : FieldPath → Json → Option Outcome} {items : List Json}
    {i : Nat} {outcomes : List Outcome} (h : elements check path i items = some outcomes) :
    List.Forall₂ (fun entry o => check (path.push (.index entry.2)) entry.1 = some o)
      (items.zipIdx i) outcomes := by
  induction items generalizing i outcomes with
  | nil =>
    cases h
    exact .nil
  | cons item rest ih =>
    obtain ⟨o, ho, h⟩ := Option.bind_eq_some_iff.mp h
    obtain ⟨more, hmore, h⟩ := Option.bind_eq_some_iff.mp h
    cases h
    exact .cons ho (ih hmore)

/-- An array gathers the outcomes of its items, or there is no array to see. -/
theorem Rule.check_array_cases {element : Validator} {low high : Option Nat}
    (h : (Rule.array element low high).check hop encoded path v = some o) :
    (∃ items outcomes, Check.items? encoded v = some items ∧
      List.Forall₂ (fun entry o => element.apply hop encoded (path.push (.index entry.2))
        (some entry.1) = some o) items.zipIdx outcomes ∧
      o = Check.gather outcomes (Check.brokenCounts low high items.length path v)) ∨
    o = Outcome.mismatch path .invalidType (element.expected ++ "[]") (some v) := by
  rw [Rule.check] at h
  split at h
  · exact Or.inr (Option.some.inj h).symm
  · next items hitems =>
    obtain ⟨outcomes, houtcomes, h⟩ := Option.bind_eq_some_iff.mp h
    cases h
    exact Or.inl ⟨items, outcomes, hitems, Check.elements_indexed houtcomes, rfl⟩

/-- The outcomes of the fields, with their issues in order and what becomes of every key. -/
theorem Rule.checkFields_outcomes {fields : List (String × Validator)}
    {given output : List (String × Json)} {result : List (String × Json) × List Issue}
    (h : Rule.checkFields hop encoded fields path given output = some result) :
    ∃ outcomes,
      List.Forall₂ (fun entry o => entry.2.apply hop encoded (path.push (.key entry.1))
        (Table.get? entry.1 given) = some o) fields outcomes ∧
      result.2 = outcomes.flatMap Outcome.issues ∧
      ∀ key, (Table.get? key (Table.ofList fields) = none →
          Table.get? key result.1 = Table.get? key output) ∧
        ∀ field, Table.get? key (Table.ofList fields) = some field → ∃ o ∈ outcomes,
          field.apply hop encoded (path.push (.key key)) (Table.get? key given) = some o ∧
            Table.get? key result.1 = o.output := by
  induction fields generalizing output result with
  | nil =>
    cases h
    refine ⟨[], .nil, rfl, fun key => ⟨fun _ => rfl, fun field hfield => ?_⟩⟩
    cases hfield
  | cons entry rest ih =>
    obtain ⟨name, field⟩ := entry
    rw [Rule.checkFields] at h
    obtain ⟨o, happly, h⟩ := Option.bind_eq_some_iff.mp h
    obtain ⟨more, hrest, h⟩ := Option.bind_eq_some_iff.mp h
    cases h
    obtain ⟨outcomes, hchecked, hissues, hkeys⟩ := ih hrest
    refine ⟨o :: outcomes, .cons happly hchecked, by rw [hissues]; rfl, fun key => ?_⟩
    obtain ⟨hkept, hdeclared⟩ := hkeys key
    rw [Table.get?_ofList_cons]
    cases hlater : Table.get? key (Table.ofList rest) with
    | some later =>
      obtain ⟨o', ho', hfound⟩ := hdeclared later hlater
      rw [Option.some_or]
      refine ⟨fun hnone => absurd hnone (Option.some_ne_none _), fun field hfield => ?_⟩
      cases hfield
      exact ⟨o', List.mem_cons_of_mem _ ho', hfound⟩
    | none =>
      have hput := hkept hlater
      rw [Check.get?_put] at hput
      rw [Option.none_or]
      by_cases hkey : key = name
      · subst hkey
        rw [if_pos rfl] at hput ⊢
        refine ⟨fun hnone => absurd hnone (Option.some_ne_none _), fun field hfield => ?_⟩
        cases hfield
        exact ⟨o, List.mem_cons_self, happly, hput⟩
      · rw [if_neg hkey] at hput ⊢
        refine ⟨fun _ => hput, fun field hfield => ?_⟩
        cases hfield

/-- An object puts the outcomes of its declared fields in, or there is no object. -/
theorem Rule.check_object_cases {fields : List (String × Validator)}
    (h : (Rule.object fields).check hop encoded path v = some o) :
    (∃ given output outcomes, v = .obj given ∧
      o = ⟨some (.obj output), outcomes.flatMap Outcome.issues⟩ ∧
      List.Forall₂ (fun entry o => entry.2.apply hop encoded (path.push (.key entry.1))
        (Table.get? entry.1 given) = some o) fields outcomes ∧
      ∀ key, (Table.get? key (Table.ofList fields) = none →
          Table.get? key output = Table.get? key given) ∧
        ∀ field, Table.get? key (Table.ofList fields) = some field → ∃ o ∈ outcomes,
          field.apply hop encoded (path.push (.key key)) (Table.get? key given) = some o ∧
            Table.get? key output = o.output) ∨
    o = Outcome.mismatch path .invalidType "object" (some v) := by
  cases v with
  | obj given =>
    obtain ⟨⟨output, issues⟩, hfields, h⟩ := Option.bind_eq_some_iff.mp h
    cases h
    obtain ⟨outcomes, hchecked, rfl, hkeys⟩ := Rule.checkFields_outcomes hfields
    exact Or.inl ⟨given, output, outcomes, rfl, rfl, hchecked, hkeys⟩
  | _ => exact Or.inr (Option.some.inj h).symm

end

end Conform
