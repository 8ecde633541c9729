import Conform.Proofs.Checking
import Conform.Proofs.Resting

/-!
# How checks end

What a check ends with does not depend on how many hops it is given, as soon
as it ends. So hops need not be counted: for each kind of rule, what a check
ends with is said by what the checks of its parts end with, and the other way
round, if those end then so does the check.
-/

namespace Conform

open Cache

section Ends

variable (c : Cache) (encoded : Bool)

/-- With enough hops, checking what is found at a place ends with the outcome. -/
def Validator.EndsWith (validator : Validator) (path : FieldPath) (found : Option Json)
    (o : Outcome) : Prop :=
  ∃ hops, validator.apply (c.hop encoded hops) encoded path found = some o

/-- The same of a rule, for a value that is there. -/
def Rule.EndsWith (rule : Rule) (path : FieldPath) (v : Json) (o : Outcome) : Prop :=
  ∃ hops, rule.check (c.hop encoded hops) encoded path v = some o

/-- Checking what is found at a place ends without an issue. -/
def Validator.Accepts (validator : Validator) (path : FieldPath) (found : Option Json) : Prop :=
  ∃ o, validator.EndsWith c encoded path found o ∧ o.accepted = true

/-- The same of a rule, for a value that is there. -/
def Rule.Accepts (rule : Rule) (path : FieldPath) (v : Json) : Prop :=
  ∃ o, rule.EndsWith c encoded path v o ∧ o.accepted = true

end Ends

section Lists

variable {α β γ : Type}

/-- What holds of each pair from some number on holds of all pairs from some number on. -/
theorem exists_common_forall₂ {R : Nat → α → β → Prop} {as : List α} {bs : List β}
    (h : List.Forall₂ (fun a b => ∃ least, ∀ n, least ≤ n → R n a b) as bs) :
    ∃ least, ∀ n, least ≤ n → List.Forall₂ (R n) as bs := by
  obtain ⟨hlength, hpairs⟩ := List.forall₂_iff_zip.mp h
  have hcommon : ∀ pair ∈ as.zip bs, ∃ least, ∀ n, least ≤ n → R n pair.1 pair.2 :=
    fun pair hpair => hpairs hpair
  obtain ⟨least, hleast⟩ := exists_common hcommon
  refine ⟨least, fun n hn => List.forall₂_iff_zip.mpr ⟨hlength, fun hmem => ?_⟩⟩
  exact hleast n hn _ hmem

/-- Partners that are found one by one make up a list. -/
theorem exists_forall₂ {R : α → β → Prop} {as : List α} (h : ∀ a ∈ as, ∃ b, R a b) :
    ∃ bs, List.Forall₂ R as bs := by
  induction as with
  | nil => exact ⟨[], .nil⟩
  | cons a rest ih =>
    obtain ⟨b, hb⟩ := h a List.mem_cons_self
    obtain ⟨bs, hbs⟩ := ih fun other hother => h other (List.mem_cons_of_mem _ hother)
    exact ⟨b :: bs, .cons hb hbs⟩

/-- Two lists of partners of the same are partners where each two partners of one are. -/
theorem forall₂_of_common {R : α → β → Prop} {S : α → γ → Prop} {T : β → γ → Prop}
    {as : List α} {bs : List β} {cs : List γ} (h : List.Forall₂ R as bs)
    (h' : List.Forall₂ S as cs) (hstep : ∀ a ∈ as, ∀ b ∈ bs, ∀ c, R a b → S a c → T b c) :
    List.Forall₂ T bs cs := by
  induction h generalizing cs with
  | nil =>
    cases h'
    exact .nil
  | cons hhead _ ih =>
    cases h' with
    | cons hhead' htail' =>
      refine .cons (hstep _ List.mem_cons_self _ List.mem_cons_self _ hhead hhead') ?_
      refine ih htail' fun a ha b hb => ?_
      exact hstep a (List.mem_cons_of_mem _ ha) b (List.mem_cons_of_mem _ hb)

end Lists

namespace Check

/-- The fields of an object with the outcomes of the named ones put in, one after another. -/
def putAll : List String → List Outcome → List (String × Json) → List (String × Json)
  | name :: names, o :: outcomes, fields => putAll names outcomes (put name o fields)
  | _, _, fields => fields

/-- Only what the outcomes keep is put in. -/
theorem putAll_congr {names : List String} {outcomes others : List Outcome}
    {fields : List (String × Json)}
    (h : List.Forall₂ (fun o o' => o.output = o'.output) outcomes others) :
    putAll names outcomes fields = putAll names others fields := by
  induction h generalizing names fields with
  | nil => rfl
  | @cons o o' _ _ hhead _ ih =>
    cases names with
    | nil => rfl
    | cons name names =>
      have hput : put name o fields = put name o' fields := by simp [put, hhead]
      simp [putAll, hput, ih]

/-- The outcomes of the items of an array make up the array's. -/
theorem elements_of_indexed {check : FieldPath → Json → Option Outcome} {path : FieldPath}
    {items : List Json} {i : Nat} {outcomes : List Outcome}
    (h : List.Forall₂ (fun entry o => check (path.push (.index entry.2)) entry.1 = some o)
      (items.zipIdx i) outcomes) : elements check path i items = some outcomes := by
  induction items generalizing i outcomes with
  | nil =>
    cases h
    rfl
  | cons item rest ih =>
    cases h with
    | cons hhead htail => simp [elements, hhead, ih htail]

end Check

/-- The outcomes of the fields of an object make up the object's, and there is no other way. -/
theorem Rule.checkFields_eq_some_iff {hop : Hop Option} {encoded : Bool}
    {fields : List (String × Validator)} {path : FieldPath} {given output : List (String × Json)}
    {result : List (String × Json) × List Issue} :
    Rule.checkFields hop encoded fields path given output = some result ↔
      ∃ outcomes, List.Forall₂ (fun entry o => entry.2.apply hop encoded
          (path.push (.key entry.1)) (Table.get? entry.1 given) = some o) fields outcomes ∧
        result = (Check.putAll (Table.keys fields) outcomes output,
          outcomes.flatMap Outcome.issues) := by
  induction fields generalizing output result with
  | nil =>
    rw [Rule.checkFields]
    constructor
    · rintro ⟨⟩
      exact ⟨[], .nil, rfl⟩
    · rintro ⟨outcomes, hchecked, rfl⟩
      cases hchecked
      rfl
  | cons entry rest ih =>
    obtain ⟨name, field⟩ := entry
    rw [Rule.checkFields]
    constructor
    · intro h
      obtain ⟨o, happly, h⟩ := Option.bind_eq_some_iff.mp h
      obtain ⟨more, hrest, h⟩ := Option.bind_eq_some_iff.mp h
      obtain ⟨outcomes, hchecked, rfl⟩ := ih.mp hrest
      cases h
      exact ⟨o :: outcomes, .cons happly hchecked, rfl⟩
    · rintro ⟨outcomes, hchecked, rfl⟩
      cases hchecked with
      | cons happly hchecked =>
        refine Option.bind_eq_some_iff.mpr ⟨_, happly, ?_⟩
        exact Option.bind_eq_some_iff.mpr ⟨_, ih.mpr ⟨_, hchecked, rfl⟩, rfl⟩

section Outcomes

variable {c : Cache} {encoded : Bool} {validator : Validator} {rule : Rule} {path : FieldPath}
  {found : Option Json} {v : Json} {o o' : Outcome} {hops more : Nat}

/-- More hops keep the outcome of a rule. -/
theorem Cache.check_mono (hle : hops ≤ more)
    (h : rule.check (c.hop encoded hops) encoded path v = some o) :
    rule.check (c.hop encoded more) encoded path v = some o :=
  Rule.check_simulated (σ := Simulation.refines) encoded rule v
    (fun _ _ _ _ _ _ ho => hop_mono hle ho) path o h

/-- More hops keep the outcome of a validator. -/
theorem Cache.apply_mono (hle : hops ≤ more)
    (h : validator.apply (c.hop encoded hops) encoded path found = some o) :
    validator.apply (c.hop encoded more) encoded path found = some o :=
  Validator.apply_simulated (σ := Simulation.refines) encoded validator found
    (fun _ _ _ _ _ _ _ _ ho => hop_mono hle ho) path o h

namespace Validator

theorem EndsWith.eventually (h : validator.EndsWith c encoded path found o) :
    ∃ least, ∀ hops, least ≤ hops →
      validator.apply (c.hop encoded hops) encoded path found = some o := by
  obtain ⟨least, h⟩ := h
  exact ⟨least, fun _ hle => apply_mono hle h⟩

theorem EndsWith.unique (h : validator.EndsWith c encoded path found o)
    (h' : validator.EndsWith c encoded path found o') : o = o' := by
  obtain ⟨hops, h⟩ := h
  obtain ⟨more, h'⟩ := h'
  have hboth := apply_mono (Nat.le_max_left hops more) h
  rw [apply_mono (Nat.le_max_right hops more) h'] at hboth
  exact (Option.some.inj hboth).symm

/-- What a check of a value ends with at the root is its outcome. -/
theorem endsWith_iff_outcome :
    validator.EndsWith c encoded .root (some v) o ↔ c.outcome? validator encoded v = some o := by
  constructor
  · rintro ⟨hops, h⟩
    have hmore := apply_mono (Nat.le_max_left hops (c.hopLimit v)) h
    rwa [apply_hops validator (Nat.le_max_right _ _)] at hmore
  · exact fun h => ⟨_, h⟩

theorem endsWith_of_counts (hv : v.Counts encoded) :
    validator.EndsWith c encoded path (some v) o ↔ validator.rule.EndsWith c encoded path v o := by
  obtain ⟨required, nullable, rule⟩ := validator
  simp only [EndsWith, Rule.EndsWith, apply_of_counts hv]

/-- What is absent, or counts as absent, is missing. -/
theorem endsWith_of_absent (hfound : Check.present encoded found = none) :
    validator.EndsWith c encoded path found o ↔
      o = Check.missing validator.required validator.rule.expected path none := by
  obtain ⟨required, nullable, rule⟩ := validator
  simp [EndsWith, Validator.apply, hfound, eq_comm]

theorem endsWith_null :
    validator.EndsWith c encoded path (some .null) o ↔
      o = if validator.nullable then Outcome.kept .null
        else Check.missing validator.required validator.rule.expected path (some .null) := by
  obtain ⟨required, nullable, rule⟩ := validator
  simp [EndsWith, Validator.apply, Check.present, eq_comm]

/-- Of refusals it does not matter where they happen. -/
theorem refuses_iff : c.Refuses encoded validator v ↔
    ∃ o, validator.EndsWith c encoded path (some v) o ∧ o.accepted = false := by
  constructor
  · intro h
    obtain ⟨o, ho, hrefused⟩ := h.apply (Nat.le_refl _) path
    exact ⟨o, ⟨_, ho⟩, hrefused⟩
  · rintro ⟨o, ⟨hops, ho⟩, hrefused⟩
    obtain ⟨o', ho', halike⟩ := outcome_of_apply ho
    exact ⟨o', ho', halike.trans hrefused⟩

end Validator

namespace Rule

/-- A rule that does not hop ends at once. -/
theorem endsWith_of_check (h : ∀ hop, rule.check (m := Option) hop encoded path v = some o') :
    rule.EndsWith c encoded path v o ↔ o = o' := by
  simp [EndsWith, h, eq_comm]

/-- A named rule ends as the rule of the type, if that is cached. -/
theorem endsWith_named {name : TypeName} : (named name).EndsWith c encoded path v o ↔
    (c.get? name = none ∧ o = Outcome.mismatch path .unresolvedType name.text (some v)) ∨
      ∃ target, c.get? name = some target ∧ target.rule.EndsWith c encoded path v o := by
  constructor
  · rintro ⟨hops, h⟩
    have hmore := check_mono (Nat.le_succ hops) h
    rw [check] at hmore
    cases hget : c.get? name with
    | none =>
      rw [hop_of_missing hget] at hmore
      exact Or.inl ⟨rfl, (Option.some.inj hmore).symm⟩
    | some target =>
      rw [hop_of_cached hget] at hmore
      exact Or.inr ⟨target, rfl, hops, hmore⟩
  · rintro (⟨hget, rfl⟩ | ⟨target, hget, hops, h⟩)
    · exact ⟨1, by rw [check, hop_of_missing hget]⟩
    · exact ⟨hops + 1, by rw [check, hop_of_cached hget, h]⟩

/-- A union takes the first branch that accepts the value, all before having refused it, if any does. -/
theorem firstAccepted_cases {branches : List Validator} {found : Option Outcome}
    (h : firstAccepted (c.hop encoded hops) encoded branches path v = some found) :
    (∃ o, found = some o ∧ ∃ before branch after, branches = before ++ branch :: after ∧
        (∀ other ∈ before, c.Refuses encoded other v) ∧
        branch.EndsWith c encoded path (some v) o ∧ o.accepted = true) ∨
      (found = none ∧ ∀ branch ∈ branches, c.Refuses encoded branch v) := by
  induction branches with
  | nil =>
    rw [firstAccepted] at h
    cases h
    exact Or.inr ⟨rfl, List.forall_mem_nil _⟩
  | cons branch rest ih =>
    rw [firstAccepted] at h
    obtain ⟨o, happly, h⟩ := Option.bind_eq_some_iff.mp h
    cases haccepted : o.accepted with
    | true =>
      rw [haccepted] at h
      cases h
      exact Or.inl ⟨o, rfl, [], branch, rest, rfl, List.forall_mem_nil _, ⟨hops, happly⟩, haccepted⟩
    | false =>
      rw [haccepted] at h
      have hrefuses : c.Refuses encoded branch v :=
        Validator.refuses_iff.mpr ⟨o, ⟨hops, happly⟩, haccepted⟩
      rcases ih h with ⟨o', rfl, before, taken, after, rfl, hbefore, htaken⟩ | ⟨rfl, hrest⟩
      · exact Or.inl ⟨o', rfl, branch :: before, taken, after, rfl,
          List.forall_mem_cons.mpr ⟨hrefuses, hbefore⟩, htaken⟩
      · exact Or.inr ⟨rfl, List.forall_mem_cons.mpr ⟨hrefuses, hrest⟩⟩

theorem firstAccepted_of_refused {before : List Validator} (hle : c.hopLimit v ≤ hops)
    (hbefore : ∀ other ∈ before, c.Refuses encoded other v) (after : List Validator) :
    firstAccepted (c.hop encoded hops) encoded (before ++ after) path v =
      firstAccepted (c.hop encoded hops) encoded after path v := by
  induction before with
  | nil => rfl
  | cons other rest ih =>
    obtain ⟨o, ho, hrefused⟩ := (hbefore other List.mem_cons_self).apply hle path
    have hrest := ih fun later hlater => hbefore later (List.mem_cons_of_mem _ hlater)
    rw [List.cons_append, firstAccepted, ho]
    simpa [hrefused] using hrest

/-- A union ends with the first branch that accepts, or with an issue of its own. -/
theorem endsWith_union {branches : List Validator} :
    (union branches).EndsWith c encoded path v o ↔
      (∃ before branch after, branches = before ++ branch :: after ∧
        (∀ other ∈ before, c.Refuses encoded other v) ∧
        branch.EndsWith c encoded path (some v) o ∧ o.accepted = true) ∨
      ((∀ branch ∈ branches, c.Refuses encoded branch v) ∧
        o = Outcome.mismatch path .noMatchingBranch (union branches).expected (some v)) := by
  constructor
  · rintro ⟨hops, h⟩
    rw [check] at h
    obtain ⟨found, hfound, h⟩ := Option.bind_eq_some_iff.mp h
    rcases firstAccepted_cases hfound with ⟨taken, rfl, htaken⟩ | ⟨rfl, hrefused⟩
    · cases h
      exact Or.inl htaken
    · exact Or.inr ⟨hrefused, (Option.some.inj h).symm⟩
  · rintro (⟨before, branch, after, rfl, hbefore, hbranch, haccepted⟩ | ⟨hrefused, rfl⟩)
    · obtain ⟨least, hleast⟩ := hbranch.eventually
      refine ⟨max least (c.hopLimit v), ?_⟩
      rw [check, firstAccepted_of_refused (Nat.le_max_right _ _) hbefore, firstAccepted,
        hleast _ (Nat.le_max_left _ _)]
      simp [haccepted]
    · refine ⟨c.hopLimit v, ?_⟩
      rw [check, ← List.append_nil branches,
        firstAccepted_of_refused (Nat.le_refl _) hrefused, firstAccepted]
      rfl

/-- An array gathers what its items end with. -/
theorem endsWith_array {element : Validator} {low high : Option Nat} {items : List Json}
    (hitems : Check.items? encoded v = some items) :
    (array element low high).EndsWith c encoded path v o ↔
      ∃ outcomes, List.Forall₂ (fun entry o => element.EndsWith c encoded
          (path.push (.index entry.2)) (some entry.1) o) items.zipIdx outcomes ∧
        o = Check.gather outcomes (Check.brokenCounts low high items.length path v) := by
  constructor
  · rintro ⟨hops, h⟩
    rw [check, hitems] at h
    obtain ⟨outcomes, houtcomes, h⟩ := Option.bind_eq_some_iff.mp h
    cases h
    exact ⟨outcomes, (Check.elements_indexed houtcomes).imp fun _ _ ho => ⟨hops, ho⟩, rfl⟩
  · rintro ⟨outcomes, hchecked, rfl⟩
    obtain ⟨least, hleast⟩ :=
      exists_common_forall₂ (hchecked.imp fun _ _ => Validator.EndsWith.eventually)
    refine ⟨least, ?_⟩
    rw [check, hitems]
    exact Option.bind_eq_some_iff.mpr
      ⟨outcomes, Check.elements_of_indexed (hleast least (Nat.le_refl _)), rfl⟩

/-- An object puts in what its declared fields end with. -/
theorem endsWith_object {fields : List (String × Validator)} {given : List (String × Json)} :
    (object fields).EndsWith c encoded path (.obj given) o ↔
      ∃ outcomes, List.Forall₂ (fun entry o => entry.2.EndsWith c encoded
          (path.push (.key entry.1)) (Table.get? entry.1 given) o) fields outcomes ∧
        o = ⟨some (.obj (Check.putAll (Table.keys fields) outcomes given)),
          outcomes.flatMap Outcome.issues⟩ := by
  constructor
  · rintro ⟨hops, h⟩
    rw [check] at h
    obtain ⟨result, hresult, h⟩ := Option.bind_eq_some_iff.mp h
    obtain ⟨outcomes, hchecked, rfl⟩ := checkFields_eq_some_iff.mp hresult
    cases h
    exact ⟨outcomes, hchecked.imp fun _ _ ho => ⟨hops, ho⟩, rfl⟩
  · rintro ⟨outcomes, hchecked, rfl⟩
    obtain ⟨least, hleast⟩ :=
      exists_common_forall₂ (hchecked.imp fun _ _ => Validator.EndsWith.eventually)
    refine ⟨least, ?_⟩
    rw [check]
    exact Option.bind_eq_some_iff.mpr
      ⟨_, checkFields_eq_some_iff.mpr ⟨outcomes, hleast least (Nat.le_refl _), rfl⟩, rfl⟩

end Rule

end Outcomes

end Conform
