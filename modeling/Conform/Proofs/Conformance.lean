import Conform.Proofs.Built
import Conform.Proofs.Coercion
import Conform.Proofs.Runs

/-!
# Conforming values

What a validator accepts it hands on in a form that conforms strictly: of the
right kind everywhere, within all bounds, with null only where it is kept. No
rule comes out empty without an issue, since branches and items are required.
-/

namespace Conform

open Cache

/-- The text meets the rule as it is. -/
structure StringRule.Meets (r : StringRule) (text : String) : Prop where
  format : Format.Writes r.format text
  long : ∀ n ∈ r.minLength, n ≤ text.length
  short : ∀ n ∈ r.maxLength, text.length ≤ n
  pattern : ∀ p ∈ r.pattern, p.2.isIn text = true

/-- The number meets the rule as it is. -/
structure NumberRule.Meets (r : NumberRule) (n : Number) : Prop where
  whole : r.integer = true → n.toDouble.isWhole = true
  low : ∀ bound ∈ r.minimum, n.toDouble.lt bound = false
  high : ∀ bound ∈ r.maximum, bound.lt n.toDouble = false

/-- The value is there: it is not null, and on a string channel not the text `undefined`. -/
structure Json.Counts (encoded : Bool) (w : Json) : Prop where
  notNull : w ≠ .null
  present : Check.present encoded (some w) = some w

section

variable (c : Cache) (encoded : Bool)

mutual

/-- The value conforms to the validator, with nothing left to coerce. -/
inductive Validator.Conforms : Validator → Json → Prop
  | null {required : Bool} {rule : Rule} : Validator.Conforms ⟨required, true, rule⟩ .null
  | value {required nullable : Bool} {rule : Rule} {w : Json} :
      w.Counts encoded → rule.Conforms w → Validator.Conforms ⟨required, nullable, rule⟩ w

/-- The value, which is there, conforms to the rule. -/
inductive Rule.Conforms : Rule → Json → Prop
  | accept {excluded : TypeName} {w : Json} : Rule.Conforms (.accept excluded) w
  | string {r : StringRule} {text : String} : r.Meets text → Rule.Conforms (.string r) (.str text)
  | number {r : NumberRule} {n : Number} : r.Meets n → Rule.Conforms (.number r) (.num n)
  | boolean {b : Bool} : Rule.Conforms .boolean (.bool b)
  | enum {values : List String} {s : String} : s ∈ values → Rule.Conforms (.enum values) (.str s)
  | union {branches : List Validator} {branch : Validator} {w : Json} :
      branch ∈ branches → branch.Conforms w → Rule.Conforms (.union branches) w
  | array {element : Validator} {low high : Option Nat} {items : List Json} :
      (∀ n ∈ low, n ≤ items.length) → (∀ n ∈ high, items.length ≤ n) →
      (∀ item ∈ items, element.Conforms item) → Rule.Conforms (.array element low high) (.arr items)
  /-- Of fields with one name, the last is the one that is declared. -/
  | object {fields : List (String × Validator)} {given : List (String × Json)} :
      (∀ name field, Table.get? name (Table.ofList fields) = some field →
        field.required = true → ∃ w, Table.get? name given = some w) →
      (∀ name field, Table.get? name (Table.ofList fields) = some field →
        ∀ w, Table.get? name given = some w → field.Conforms w) →
      Rule.Conforms (.object fields) (.obj given)
  | named {name : TypeName} {target : Validator} {w : Json} :
      c.get? name = some target → target.rule.Conforms w → Rule.Conforms (.named name) w

end

end

/-- The items of an array have to be there. -/
def Rule.Tight : Rule → Prop
  | .array element _ _ => element.required = true
  | _ => True

namespace Outcome

/-- If the outcome is accepted, it keeps a value of this kind. -/
def Yields (o : Outcome) (P : Json → Prop) : Prop :=
  o.accepted = true → ∃ w, o.output = some w ∧ P w

variable {P Q : Json → Prop} {o : Outcome}

theorem Yields.mono (h : o.Yields P) (hPQ : ∀ w, P w → Q w) : o.Yields Q := by
  intro haccepted
  obtain ⟨w, hw, hP⟩ := h haccepted
  exact ⟨w, hw, hPQ w hP⟩

theorem yields_kept {w : Json} (h : P w) : (kept w).Yields P := fun _ => ⟨w, rfl, h⟩

theorem yields_mismatch (path : FieldPath) (code : Reason) (expected : String)
    (found : Option Json) : (mismatch path code expected found).Yields P := fun h => by cases h

theorem yields_keptUnless {w : Json} {issues : List Issue} (h : issues = [] → P w) :
    (keptUnless w issues).Yields P := by
  intro haccepted
  have hnone : issues = [] := List.isEmpty_iff.mp haccepted
  subst hnone
  exact ⟨w, rfl, h rfl⟩

end Outcome

section

variable {encoded : Bool} {v w : Json} {text : String} {n : Number} {path : FieldPath}

theorem Json.counts_of_kind (hnull : v ≠ .null) (htext : ∀ s, v ≠ .str s) : v.Counts encoded := by
  refine ⟨hnull, ?_⟩
  unfold Check.present
  split
  · next s heq => exact absurd (Option.some.inj heq) (htext s)
  · rfl

theorem Json.counts_str_iff : (Json.str text).Counts encoded ↔
    (encoded = true → text ≠ "undefined") := by
  have hpresent : Check.present encoded (some (.str text)) = some (.str text) ↔
      (encoded = true → text ≠ "undefined") := by
    unfold Check.present
    cases encoded <;> by_cases h : text = "undefined" <;> simp [h]
  exact ⟨fun h => hpresent.mp h.present, fun h => ⟨by simp, hpresent.mpr h⟩⟩

/-- Null aside, only the text `undefined` is not there, on a string channel. -/
theorem Json.not_counts_iff (hnull : v ≠ .null) :
    ¬ v.Counts encoded ↔ encoded = true ∧ v = .str "undefined" := by
  cases v with
  | null => exact absurd rfl hnull
  | str text => rw [counts_str_iff]; simp
  | _ => simp [counts_of_kind]

/-- A coerced text counts if its value did. -/
theorem Coerce.formatted_counts {format : Option Format} (hv : v.Counts encoded)
    (h : formatted format v = .ok text) : (Json.str text).Counts encoded := by
  rw [Json.counts_str_iff]
  rintro hencoded rfl
  have heq := eq_of_formatted_undefined h
  subst heq
  exact Json.counts_str_iff.mp hv hencoded rfl

theorem StringRule.broken_eq_nil_iff (r : StringRule) : r.broken path v text = [] ↔
    (∀ n ∈ r.minLength, n ≤ text.length) ∧ (∀ n ∈ r.maxLength, text.length ≤ n) ∧
      ∀ p ∈ r.pattern, p.2.isIn text = true := by
  obtain ⟨format, minLength, maxLength, pattern⟩ := r
  unfold broken
  cases minLength <;> cases maxLength <;> cases pattern <;> simp

theorem NumberRule.broken_eq_nil_iff (r : NumberRule) : r.broken path v n.toDouble = [] ↔
    (∀ bound ∈ r.minimum, n.toDouble.lt bound = false) ∧
      ∀ bound ∈ r.maximum, bound.lt n.toDouble = false := by
  obtain ⟨integer, minimum, maximum⟩ := r
  unfold broken
  cases minimum <;> cases maximum <;> simp

theorem StringRule.check_yields (r : StringRule) (hv : v.Counts encoded) :
    (r.check path v).Yields fun w =>
      w.Counts encoded ∧ ∃ text, w = .str text ∧ r.Meets text := by
  unfold check
  cases hcoerced : Coerce.formatted r.format v with
  | error reason => exact Outcome.yields_mismatch _ _ _ _
  | ok text =>
    refine Outcome.yields_keptUnless fun hbroken => ?_
    obtain ⟨hlong, hshort, hpattern⟩ := r.broken_eq_nil_iff.mp hbroken
    exact ⟨Coerce.formatted_counts hv hcoerced, text, rfl,
      Coerce.formatted_writes hcoerced, hlong, hshort, hpattern⟩

theorem NumberRule.check_yields (r : NumberRule) :
    (r.check path v).Yields fun w => ∃ n, w = .num n ∧ r.Meets n := by
  unfold check
  cases hcoerced : Coerce.number r.integer v with
  | error reason => exact Outcome.yields_mismatch _ _ _ _
  | ok n =>
    refine Outcome.yields_keptUnless fun hbroken => ?_
    obtain ⟨hlow, hhigh⟩ := r.broken_eq_nil_iff.mp hbroken
    exact ⟨n, rfl, Coerce.isWhole_of_number hcoerced, hlow, hhigh⟩

theorem Check.boolean_yields : (Check.boolean path v).Yields fun w => ∃ b, w = .bool b := by
  unfold Check.boolean
  split
  · next b _ => exact Outcome.yields_kept ⟨b, rfl⟩
  · exact Outcome.yields_mismatch _ _ _ _

theorem Check.enum_yields (values : List String) :
    (Check.enum values path v).Yields fun w => w = v ∧ ∃ s ∈ values, w = .str s := by
  unfold Check.enum
  split
  · next s =>
    split
    · next hmem => exact Outcome.yields_kept ⟨rfl, s, List.contains_iff_mem.mp hmem, rfl⟩
    · exact Outcome.yields_mismatch _ _ _ _
  · exact Outcome.yields_mismatch _ _ _ _

theorem Check.brokenCounts_eq_nil_iff {low high : Option Nat} {count : Nat} :
    Check.brokenCounts low high count path v = [] ↔
      (∀ n ∈ low, n ≤ count) ∧ ∀ n ∈ high, count ≤ n := by
  unfold brokenCounts
  cases low <;> cases high <;> simp

/-- What parts complain of is complained of, so all is accepted just if each part is. -/
theorem Outcome.all_accepted_iff {output : Option Json} {outcomes : List Outcome} :
    accepted ⟨output, outcomes.flatMap issues⟩ = true ↔ ∀ o ∈ outcomes, o.accepted = true := by
  simp [accepted, List.flatMap_eq_nil_iff]

theorem Check.gather_accepted_iff {outcomes : List Outcome} {broken : List Issue} :
    (gather outcomes broken).accepted = true ↔
      broken = [] ∧ ∀ o ∈ outcomes, o.accepted = true := by
  simp [gather, Outcome.accepted, List.flatMap_eq_nil_iff]

/-- Gathered without an issue, an array is within its bounds and made of what its items yield. -/
theorem Check.gather_yields {P : Json → Prop} {low high : Option Nat} {items : List Json}
    {outcomes : List Outcome} (hlength : items.length = outcomes.length)
    (h : ∀ o ∈ outcomes, o.Yields P) :
    (gather outcomes (brokenCounts low high items.length path v)).Yields fun w =>
      ∃ values, w = .arr values ∧ (∀ n ∈ low, n ≤ values.length) ∧
        (∀ n ∈ high, values.length ≤ n) ∧ ∀ value ∈ values, P value := by
  intro haccepted
  obtain ⟨hbroken, hclean⟩ := gather_accepted_iff.mp haccepted
  refine ⟨_, rfl, _, rfl, ?_⟩
  rw [hlength, brokenCounts_eq_nil_iff] at hbroken
  rw [List.length_map]
  refine ⟨hbroken.1, hbroken.2, fun value hvalue => ?_⟩
  obtain ⟨o, ho, rfl⟩ := List.mem_map.mp hvalue
  obtain ⟨w, hw, hP⟩ := h o ho (hclean o ho)
  rw [hw]
  exact hP

end

theorem Check.get?_put {name other : String} {o : Outcome} {fields : List (String × Json)} :
    Table.get? other (put name o fields) =
      if other = name then o.output else Table.get? other fields := by
  unfold put
  split
  · next w hw => rw [Table.get?_insert, hw]
  · next hw =>
    by_cases h : other = name
    · rw [if_pos h, h, Table.get?_erase_self, hw]
    · rw [if_neg h, Table.get?_erase_of_ne h]

theorem exists_of_forall₂ {α β : Type} {R : α → β → Prop} {as : List α} {bs : List β}
    (h : List.Forall₂ R as bs) {b : β} (hb : b ∈ bs) : ∃ a ∈ as, R a b := by
  induction h with
  | nil => cases hb
  | cons hhead _ ih =>
    rcases List.mem_cons.mp hb with rfl | hb
    · exact ⟨_, List.mem_cons_self, hhead⟩
    · obtain ⟨a, ha, hR⟩ := ih hb
      exact ⟨a, List.mem_cons_of_mem _ ha, hR⟩

/-- Every item has its outcome. -/
theorem Check.elements_some {check : FieldPath → Json → Option Outcome} {path : FieldPath}
    {items : List Json} {i : Nat} {outcomes : List Outcome}
    (h : elements check path i items = some outcomes) :
    List.Forall₂ (fun item o => ∃ p, check p item = some o) items outcomes := by
  induction items generalizing i outcomes with
  | nil =>
    cases h
    exact .nil
  | cons item rest ih =>
    obtain ⟨o, ho, h⟩ := Option.bind_eq_some_iff.mp h
    obtain ⟨more, hmore, h⟩ := Option.bind_eq_some_iff.mp h
    cases h
    exact .cons ⟨_, ho⟩ (ih hmore)

/-- What hopping to a type hands on conforms to the rule of the type. -/
def Cache.HopConforms (c : Cache) (encoded : Bool) (hop : Hop Option) : Prop :=
  ∀ name path v o, v.Counts encoded → hop name path v = some o →
    o.Yields fun w => w.Counts encoded ∧ (Rule.named name).Conforms c encoded w

theorem Validator.apply_of_counts {hop : Hop Option} {encoded : Bool} {required nullable : Bool}
    {rule : Rule} {path : FieldPath} {v : Json} (hv : v.Counts encoded) :
    Validator.apply hop encoded ⟨required, nullable, rule⟩ path (some v) =
      rule.check hop encoded path v := by
  unfold Validator.apply
  rw [hv.present]
  cases v with
  | null => exact absurd rfl hv.notNull
  | _ => rfl

section Checking

variable {c : Cache} {encoded : Bool} {hop : Hop Option}

mutual

/-- An accepted value conforms; only where none is required may there be none. -/
theorem Validator.apply_conforms (hhop : c.HopConforms encoded hop) :
    (validator : Validator) → validator.All Rule.Tight →
    ∀ {path found o}, validator.apply hop encoded path found = some o → o.accepted = true →
      (∀ w, o.output = some w → validator.Conforms c encoded w) ∧
        (validator.required = true → ∃ w, o.output = some w)
  | ⟨required, nullable, rule⟩, htight, path, found, o, h, haccepted => by
    have hmissing : ∀ found, Check.missing required rule.expected path found = o →
        (∀ w, o.output = some w → Validator.Conforms c encoded ⟨required, nullable, rule⟩ w) ∧
          (required = true → ∃ w, o.output = some w) := by
      rintro found rfl
      unfold Check.missing at haccepted ⊢
      cases required with
      | true => cases haccepted
      | false =>
        constructor
        · intro w hw
          cases hw
        · intro hrequired
          cases hrequired
    unfold Validator.apply at h
    split at h
    · exact hmissing none (Option.some.inj h)
    · cases hnullable : nullable with
      | true =>
        rw [hnullable] at h
        cases h
        refine ⟨fun w hw => ?_, fun _ => ⟨.null, rfl⟩⟩
        cases hw
        exact .null
      | false =>
        rw [hnullable] at h hmissing
        exact hmissing (some .null) (Option.some.inj h)
    · next v hnull hpresent =>
      have hfound : found = some v := Check.eq_of_present hpresent
      rw [hfound] at hpresent
      have hv : v.Counts encoded := ⟨fun heq => hnull (heq ▸ rfl), hpresent⟩
      obtain ⟨w, hw, hcounts, hconforms⟩ := Rule.check_conforms hhop rule htight hv h haccepted
      refine ⟨fun w' hw' => ?_, fun _ => ⟨w, hw⟩⟩
      rw [hw] at hw'
      cases hw'
      exact .value hcounts hconforms

theorem Rule.check_conforms (hhop : c.HopConforms encoded hop) : (rule : Rule) → rule.All Rule.Tight →
    ∀ {path v o}, v.Counts encoded → rule.check hop encoded path v = some o →
      o.Yields fun w => w.Counts encoded ∧ rule.Conforms c encoded w
  | .accept _, _, path, v, o, hv, h => by
    unfold Rule.check at h
    cases h
    exact Outcome.yields_kept ⟨hv, .accept⟩
  | .string r, _, path, v, o, hv, h => by
    unfold Rule.check at h
    cases h
    refine (r.check_yields hv).mono ?_
    rintro w ⟨hcounts, text, rfl, hmeets⟩
    exact ⟨hcounts, .string hmeets⟩
  | .number r, _, path, v, o, hv, h => by
    unfold Rule.check at h
    cases h
    refine r.check_yields.mono ?_
    rintro w ⟨n, rfl, hmeets⟩
    exact ⟨Json.counts_of_kind (by simp) (by simp), .number hmeets⟩
  | .boolean, _, path, v, o, hv, h => by
    unfold Rule.check at h
    cases h
    refine Check.boolean_yields.mono ?_
    rintro w ⟨b, rfl⟩
    exact ⟨Json.counts_of_kind (by simp) (by simp), .boolean⟩
  | .enum values, _, path, v, o, hv, h => by
    unfold Rule.check at h
    cases h
    refine (Check.enum_yields values).mono ?_
    rintro w ⟨rfl, s, hs, rfl⟩
    exact ⟨hv, .enum hs⟩
  | .union branches, ⟨htight, hall⟩, path, v, o, hv, h => by
    unfold Rule.check at h
    obtain ⟨found, hfound, h⟩ := Option.bind_eq_some_iff.mp h
    cases found with
    | none =>
      cases h
      exact Outcome.yields_mismatch _ _ _ _
    | some outcome =>
      cases h
      obtain ⟨branch, hbranch, hyields⟩ := Rule.firstAccepted_conforms hhop branches hall hv hfound
      exact hyields.mono fun w hw => ⟨hw.1, .union hbranch hw.2⟩
  | .array element low high, ⟨htight, hall⟩, path, v, o, hv, h => by
    unfold Rule.check at h
    split at h
    · cases h
      exact Outcome.yields_mismatch _ _ _ _
    · next items hitems =>
      obtain ⟨outcomes, houtcomes, h⟩ := Option.bind_eq_some_iff.mp h
      cases h
      have hchecked := Check.elements_some houtcomes
      have hyields : ∀ o ∈ outcomes, o.Yields (element.Conforms c encoded) := by
        intro o ho hclean
        obtain ⟨item, -, p, happly⟩ := exists_of_forall₂ hchecked ho
        obtain ⟨hconforms, hsome⟩ := Validator.apply_conforms hhop element hall happly hclean
        obtain ⟨w, hw⟩ := hsome htight
        exact ⟨w, hw, hconforms w hw⟩
      refine (Check.gather_yields hchecked.length_eq hyields).mono ?_
      rintro w ⟨values, rfl, hlow, hhigh, hvalues⟩
      exact ⟨Json.counts_of_kind (by simp) (by simp), .array hlow hhigh hvalues⟩
  | .object fields, ⟨_, hall⟩, path, v, o, hv, h => by
    unfold Rule.check at h
    split at h
    · next given =>
      obtain ⟨⟨output, issues⟩, hfields, h⟩ := Option.bind_eq_some_iff.mp h
      cases h
      intro haccepted
      have hnone : issues = [] := List.isEmpty_iff.mp haccepted
      have hdeclared := fun name =>
        (Rule.checkFields_conforms hhop fields hall hfields hnone name).2
      refine ⟨_, rfl, Json.counts_of_kind (by simp) (by simp), .object ?_ ?_⟩
      · exact fun name field hfield => (hdeclared name field hfield).2
      · exact fun name field hfield => (hdeclared name field hfield).1
    · cases h
      exact Outcome.yields_mismatch _ _ _ _
  | .named name, _, path, v, o, hv, h => by
    unfold Rule.check at h
    exact hhop name path v o hv h

theorem Rule.firstAccepted_conforms (hhop : c.HopConforms encoded hop) :
    (branches : List Validator) →
    Validator.AllBranches Rule.Tight branches →
    ∀ {path v o}, v.Counts encoded → Rule.firstAccepted hop encoded branches path v = some (some o) →
      ∃ branch ∈ branches, o.Yields fun w => w.Counts encoded ∧ branch.Conforms c encoded w
  | [], _, path, v, o, _, h => by
    unfold Rule.firstAccepted at h
    cases h
  | ⟨required, nullable, rule⟩ :: rest, ⟨hbranch, hall⟩, path, v, o, hv, h => by
    unfold Rule.firstAccepted at h
    obtain ⟨outcome, happly, h⟩ := Option.bind_eq_some_iff.mp h
    rw [Validator.apply_of_counts hv] at happly
    split at h
    · cases h
      have hyields := Rule.check_conforms hhop rule hbranch hv happly
      exact ⟨_, List.mem_cons_self, hyields.mono fun w hw => ⟨hw.1, .value hw.1 hw.2⟩⟩
    · obtain ⟨branch, hmem, hyields⟩ := Rule.firstAccepted_conforms hhop rest hall hv h
      exact ⟨branch, List.mem_cons_of_mem _ hmem, hyields⟩

theorem Rule.checkFields_conforms (hhop : c.HopConforms encoded hop) :
    (fields : List (String × Validator)) →
    Validator.AllFields Rule.Tight fields →
    ∀ {path given output result}, Rule.checkFields hop encoded fields path given output = some result →
      result.2 = [] → ∀ name,
      (Table.get? name (Table.ofList fields) = none →
        Table.get? name result.1 = Table.get? name output) ∧
      ∀ field, Table.get? name (Table.ofList fields) = some field →
        (∀ w, Table.get? name result.1 = some w → field.Conforms c encoded w) ∧
          (field.required = true → ∃ w, Table.get? name result.1 = some w)
  | [], _, path, given, output, result, h, _, name => by
    unfold Rule.checkFields at h
    cases h
    exact ⟨fun _ => rfl, nofun⟩
  | (key, field) :: rest, ⟨hfield, hall⟩, path, given, output, result, h, hnone, name => by
    unfold Rule.checkFields at h
    obtain ⟨o, happly, h⟩ := Option.bind_eq_some_iff.mp h
    obtain ⟨more, hrest, h⟩ := Option.bind_eq_some_iff.mp h
    cases h
    obtain ⟨hclean, hmore⟩ := List.append_eq_nil_iff.mp hnone
    obtain ⟨hkept, hdeclared⟩ := Rule.checkFields_conforms hhop rest hall hrest hmore name
    rw [Table.get?_ofList_cons]
    cases hlater : Table.get? name (Table.ofList rest) with
    | some later =>
      rw [Option.some_or]
      refine ⟨nofun, fun found hfound => ?_⟩
      cases hfound
      exact hdeclared later hlater
    | none =>
      have hput := hkept hlater
      rw [Check.get?_put] at hput
      rw [Option.none_or]
      by_cases hname : name = key
      · rw [if_pos hname] at hput ⊢
        refine ⟨nofun, fun found hfound => ?_⟩
        cases hfound
        rw [hput]
        exact Validator.apply_conforms hhop field hfield happly (List.isEmpty_iff.mpr hclean)
      · rw [if_neg hname] at hput ⊢
        exact ⟨fun _ => hput, nofun⟩

end

end Checking

namespace Cache

variable {c : Cache} {encoded : Bool} {validator : Validator} {v : Json} {o : Outcome}

/-- The items of every cached array have to be there. -/
def Tight (c : Cache) : Prop :=
  ∀ name validator, c.get? name = some validator → validator.All Rule.Tight

/-- However many hops there are, they hand on conforming values. -/
theorem hop_conforms (htight : c.Tight) (hops : Nat) :
    c.HopConforms encoded (c.hop encoded hops) := by
  induction hops with
  | zero =>
    intro name path v o _ h
    cases h
  | succ hops ih =>
    intro name path v o hv h
    rcases hop_cases h with rfl | ⟨⟨required, nullable, rule⟩, hget, h⟩
    · exact Outcome.yields_mismatch _ _ _ _
    · have hyields := Rule.check_conforms ih rule (htight name _ hget) hv h
      exact hyields.mono fun w hw => ⟨hw.1, .named hget hw.2⟩

/-- What a required validator accepts conforms to it. -/
theorem outcome_conforms (htight : c.Tight) (hall : validator.All Rule.Tight)
    (hrequired : validator.required = true)
    (ho : c.outcome? validator encoded v = some o) :
    o.Yields (validator.Conforms c encoded) := by
  intro haccepted
  obtain ⟨hconforms, hsome⟩ :=
    validator.apply_conforms (hop_conforms htight _) hall ho haccepted
  obtain ⟨w, hw⟩ := hsome hrequired
  exact ⟨w, hw, hconforms w hw⟩

end Cache

namespace Store

variable {s : Store} {c c' : Cache} {inherited : TypeName → Bool} {name : TypeName}
  {target : Target} {location : String} {v : Validator}

/-- Nodes build validators whose items have to be there. -/
theorem tight_of_builds {node : Node} {required : Bool}
    (h : node.Builds s inherited required v) : v.All Rule.Tight := by
  have hrule : ∀ shape rule, NodeShape.Builds s inherited shape rule → True → rule.Tight := by
    intro shape rule hbuilds _
    cases hbuilds with
    | array helement => exact helement.required
    | primitive hp => rcases Primitive.rule_kind hp with ⟨r, rfl⟩ | ⟨r, rfl⟩ | rfl <;> trivial
    | _ => trivial
  exact Node.Builds.all hrule node h (Node.all_of_forall (fun _ => trivial) node)

theorem tight_of_cached (hc : Coherent s c) (hget : c.get? name = some v) :
    v.required = true ∧ v.All Rule.Tight := by
  rcases builds_of_cached hc hget with rfl | ⟨inherited, node, -, hbuilds⟩
  · exact ⟨rfl, trivial⟩
  · exact ⟨hbuilds.required, tight_of_builds hbuilds⟩

theorem tight_of_coherent (hc : Coherent s c) : c.Tight :=
  fun _ _ hget => (tight_of_cached hc hget).2

theorem tight_of_compileTarget (hc : Coherent s c)
    (h : s.compileTarget c target location = .ok (v, c')) :
    v.required = true ∧ v.All Rule.Tight := by
  cases target with
  | named name =>
    obtain ⟨hupdate, hget⟩ := compileNamed_ok h
    exact tight_of_cached (hupdate.coherent hc) hget
  | inline d =>
    obtain ⟨node, -, hbuilds⟩ := compileInline_builds h
    exact ⟨hbuilds.required, tight_of_builds hbuilds⟩

end Store

/-- The value that a verdict accepts. -/
def Verdict.value? : Verdict → Option Json
  | .accepted w => some w
  | _ => none

theorem Verdict.ofOutcome_eq_accepted_iff {channel : Channel} {label : String}
    {found : Option Outcome} {w : Json} : Verdict.ofOutcome channel label found = .accepted w ↔
      ∃ o, found = some o ∧ o.accepted = true ∧ w = .orNull o.output := by
  constructor
  · intro h
    cases found with
    | none => cases h
    | some o =>
      unfold ofOutcome at h
      dsimp only at h
      split at h
      · next haccepted =>
        cases h
        exact ⟨o, rfl, haccepted, rfl⟩
      · cases h
  · rintro ⟨o, rfl, haccepted, rfl⟩
    exact if_pos haccepted

theorem Verdict.eq_accepted {verdict : Verdict} {w : Json} (h : verdict.value? = some w) :
    verdict = .accepted w := by
  cases verdict with
  | accepted v =>
    cases h
    rfl
  | _ => cases h

namespace Session

variable {s : Session} {target : Target} {channel : Channel} {v w : Json}

theorem validate_of_validatorFor {validator : Validator} {t : Session}
    (h : s.validatorFor target (locationOf channel) = (.ok validator, t)) :
    s.validate v target channel = (Verdict.ofOutcome channel target.label
      (t.cache.outcome? validator channel.stringEncoded v), t) := by
  unfold validate
  rw [h]

/-- An accepted value has a validator, whose outcome it is. -/
theorem exists_outcome_of_accepted (h : (s.validate v target channel).1 = .accepted w) :
    ∃ validator, s.validatorFor target (locationOf channel) =
        (.ok validator, (s.validate v target channel).2) ∧
      ∃ o, (s.validate v target channel).2.cache.outcome? validator channel.stringEncoded v =
          some o ∧ o.accepted = true ∧ w = .orNull o.output := by
  cases hfor : s.validatorFor target (locationOf channel) with
  | mk answer t =>
    cases answer with
    | error e =>
      unfold validate at h
      rw [hfor] at h
      cases h
    | ok validator =>
      rw [validate_of_validatorFor hfor] at h ⊢
      exact ⟨validator, rfl, Verdict.ofOutcome_eq_accepted_iff.mp h⟩

/-- What a session with a coherent cache accepts conforms to the validator that it compiles. -/
theorem conforms_of_accepted (hs : Coherent s.store s.cache)
    (h : (s.validate v target channel).1 = .accepted w) :
    ∃ validator, s.validatorFor target (locationOf channel) =
        (.ok validator, (s.validate v target channel).2) ∧
      validator.required = true ∧
      validator.Conforms (s.validate v target channel).2.cache channel.stringEncoded w := by
  obtain ⟨validator, hfor, o, ho, haccepted, rfl⟩ := exists_outcome_of_accepted h
  have hadvances := validatorFor_advances s target (locationOf channel)
  rw [hfor] at hadvances
  obtain ⟨hrequired, hall⟩ := Store.tight_of_compileTarget hs (validatorFor_ok hfor)
  refine ⟨validator, hfor, hrequired, ?_⟩
  have htight := Store.tight_of_coherent (hadvances.coherent hs)
  obtain ⟨w, hw, hconforms⟩ := outcome_conforms htight hall hrequired ho haccepted
  rw [hw]
  exact hconforms

/-- After any calls, what validating a value answers conforms to the compiled target. -/
theorem validate_conforms (store : Store) (calls : List Call)
    (h : ((after store calls).validate v target channel).1 = .accepted w) :
    ∃ validator, (after store calls).validatorFor target (locationOf channel) =
        (.ok validator, ((after store calls).validate v target channel).2) ∧
      validator.required = true ∧
      validator.Conforms ((after store calls).validate v target channel).2.cache
        channel.stringEncoded w := by
  have hcoherent : Coherent (after store calls).store (after store calls).cache :=
    (after_advances store calls).coherent (Coherent.empty store)
  exact conforms_of_accepted hcoherent h

/-- A schema object that asks for an integer. -/
def integerDefinition : Definition := plainDefinition { kinds := some (.one "integer") }

/-- An integer of a query conforms once it is read. -/
theorem query_integer_conforms :
    ((after aliasStore []).validate (.str "5") (.inline integerDefinition) .query).1 =
        .accepted (.num (.int 5)) ∧
      ∃ validator, (after aliasStore []).validatorFor (.inline integerDefinition)
          (locationOf .query) = (.ok validator,
            ((after aliasStore []).validate (.str "5") (.inline integerDefinition) .query).2) ∧
        validator.required = true ∧
        validator.Conforms
          ((after aliasStore []).validate (.str "5") (.inline integerDefinition) .query).2.cache
          true (.num (.int 5)) := by
  have haccepted : ((after aliasStore []).validate (.str "5") (.inline integerDefinition) .query).1 =
      .accepted (.num (.int 5)) := Verdict.eq_accepted (by decide +kernel)
  exact ⟨haccepted, validate_conforms aliasStore [] haccepted⟩

end Session

end Conform
