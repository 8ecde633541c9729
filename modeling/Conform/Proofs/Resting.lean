import Conform.Proofs.Conformance
import Conform.Proofs.Ordered

/-!
# Resting values

A conforming value rests if no earlier branch of a union takes it for its own.
Timestamps apart whose year is written with a sign, checking a resting value
once more hands it on as it is, and only a resting value is handed on so:
everything else has settled in the first check.
-/

namespace Conform

open Cache

/-- The branch does not accept the value, and says so. -/
def Cache.Refuses (c : Cache) (encoded : Bool) (branch : Validator) (w : Json) : Prop :=
  ∃ o, c.outcome? branch encoded w = some o ∧ o.accepted = false

section

variable (c : Cache) (encoded : Bool)

mutual

/-- Whatever in the value, which conforms, is of a union is of its first branch that accepts it. -/
inductive Validator.Rests : Validator → Json → Prop
  | null {validator : Validator} : Validator.Rests validator .null
  | value {required nullable : Bool} {rule : Rule} {w : Json} :
      rule.Rests w → Validator.Rests ⟨required, nullable, rule⟩ w

inductive Rule.Rests : Rule → Json → Prop
  | accept {excluded : TypeName} {w : Json} : Rule.Rests (.accept excluded) w
  | string {r : StringRule} {w : Json} : Rule.Rests (.string r) w
  | number {r : NumberRule} {w : Json} : Rule.Rests (.number r) w
  | boolean {w : Json} : Rule.Rests .boolean w
  | enum {values : List String} {w : Json} : Rule.Rests (.enum values) w
  /-- The branches before the one that it conforms to refuse it. -/
  | union {before after : List Validator} {branch : Validator} {w : Json} :
      (∀ other ∈ before, c.Refuses encoded other w) → branch.Conforms c encoded w →
      branch.Rests w → Rule.Rests (.union (before ++ branch :: after)) w
  | array {element : Validator} {low high : Option Nat} {items : List Json} :
      (∀ item ∈ items, element.Rests item) → Rule.Rests (.array element low high) (.arr items)
  | object {fields : List (String × Validator)} {given : List (String × Json)} :
      (∀ name field, Table.get? name (Table.ofList fields) = some field →
        ∀ w, Table.get? name given = some w → field.Rests w) →
      Rule.Rests (.object fields) (.obj given)
  | named {name : TypeName} {target : Validator} {w : Json} :
      c.get? name = some target → target.rule.Rests w → Rule.Rests (.named name) w

end

mutual

/-- Every timestamp in the value, which conforms, has a year that is written without a sign. -/
inductive Validator.Keeps : Validator → Json → Prop
  | null {validator : Validator} : Validator.Keeps validator .null
  | value {required nullable : Bool} {rule : Rule} {w : Json} :
      rule.Keeps w → Validator.Keeps ⟨required, nullable, rule⟩ w

inductive Rule.Keeps : Rule → Json → Prop
  | accept {excluded : TypeName} {w : Json} : Rule.Keeps (.accept excluded) w
  | string {r : StringRule} {text : String} :
      Format.Keeps r.format text → Rule.Keeps (.string r) (.str text)
  | number {r : NumberRule} {w : Json} : Rule.Keeps (.number r) w
  | boolean {w : Json} : Rule.Keeps .boolean w
  | enum {values : List String} {w : Json} : Rule.Keeps (.enum values) w
  | union {branches : List Validator} {w : Json} :
      (∀ branch ∈ branches, branch.Conforms c encoded w → branch.Keeps w) →
      Rule.Keeps (.union branches) w
  | array {element : Validator} {low high : Option Nat} {items : List Json} :
      (∀ item ∈ items, element.Keeps item) → Rule.Keeps (.array element low high) (.arr items)
  | object {fields : List (String × Validator)} {given : List (String × Json)} :
      (∀ name field, Table.get? name (Table.ofList fields) = some field →
        ∀ w, Table.get? name given = some w → field.Keeps w) →
      Rule.Keeps (.object fields) (.obj given)
  | named {name : TypeName} {target : Validator} {w : Json} :
      c.get? name = some target → target.rule.Keeps w → Rule.Keeps (.named name) w

end

end

namespace Cache

variable {c : Cache} {encoded : Bool} {hops more : Nat} {path : FieldPath} {v w : Json}
  {validator : Validator} {o : Outcome}

theorem hop_mono (hle : hops ≤ more) {name : TypeName}
    (h : c.hop encoded hops name path v = some o) : c.hop encoded more name path v = some o := by
  induction hle with
  | refl => exact h
  | step _ ih => exact hop_grows _ _ _ _ ih

theorem exists_accepted_alike {μ : Matching} {x y : Option Outcome} (h : μ.Ends x y)
    (hx : x = some o) : ∃ o', y = some o' ∧ o'.accepted = o.accepted := by
  subst hx
  cases h with
  | some hmatched => exact ⟨_, rfl, hmatched.accepted.symm⟩

/-- What a check answers within some hops and at some place is what it answers at all. -/
theorem outcome_of_apply
    (h : validator.apply (c.hop encoded hops) encoded path (some v) = some o) :
    ∃ o', c.outcome? validator encoded v = some o' ∧ o'.accepted = o.accepted := by
  let enough := max hops (c.hopLimit v)
  have hmore : validator.apply (c.hop encoded enough) encoded path (some v) = some o := by
    refine Validator.apply_simulated (σ := Simulation.refines) encoded validator (some v) ?_ path o h
    intro _ _ name _ path part _ o ho
    exact hop_mono (Nat.le_max_left _ _) ho
  rw [apply_hops validator (Nat.le_max_right _ _)] at hmore
  exact exists_accepted_alike (apply_elsewhere validator _ path FieldPath.root v) hmore

/-- What is refused is refused at every place, as soon as there are enough hops. -/
theorem Refuses.apply (h : c.Refuses encoded validator v) (hle : c.hopLimit v ≤ hops)
    (path : FieldPath) :
    ∃ o, validator.apply (c.hop encoded hops) encoded path (some v) = some o ∧
      o.accepted = false := by
  obtain ⟨o, ho, hrefused⟩ := h
  unfold outcome? at ho
  rw [← apply_hops validator hle] at ho
  obtain ⟨o', ho', halike⟩ :=
    exists_accepted_alike (apply_elsewhere validator hops FieldPath.root path v) ho
  exact ⟨o', ho', halike.trans hrefused⟩

end Cache

/-- What hopping to a type hands on as it was rests with the rule of the type. -/
def Cache.HopRests (c : Cache) (encoded : Bool) (hop : Hop Option) : Prop :=
  ∀ name path v o, v.Counts encoded → hop name path v = some o → o.accepted = true →
    o.output = some v → (Rule.named name).Rests c encoded v

section Kept

variable {c : Cache} {encoded : Bool} {hops : Nat}

mutual

/-- A value that is handed on as it was rests. -/
theorem Validator.apply_rests (htight : c.Tight) (hrests : c.HopRests encoded (c.hop encoded hops)) :
    (validator : Validator) → validator.All Rule.Tight → ∀ {path o v},
    validator.apply (c.hop encoded hops) encoded path (some v) = some o → o.accepted = true →
      o.output = some v → validator.Rests c encoded v
  | ⟨required, nullable, rule⟩, hall, path, o, v, h, haccepted, houtput => by
    by_cases hcounts : v.Counts encoded
    · rw [Validator.apply_of_counts hcounts] at h
      exact .value (Rule.check_rests htight hrests rule hall hcounts h haccepted houtput)
    · -- only null is kept without being there
      cases v with
      | null => exact .null
      | _ =>
        unfold Validator.apply at h
        split at h
        · cases h
          cases required with
          | true => cases haccepted
          | false => cases houtput
        · next hpresent => cases Check.eq_of_present hpresent
        · next w _ hpresent =>
          have heq := Check.eq_of_present hpresent
          rw [← heq] at hpresent
          exact absurd ⟨by simp, hpresent⟩ hcounts

theorem Rule.check_rests (htight : c.Tight) (hrests : c.HopRests encoded (c.hop encoded hops)) :
    (rule : Rule) → rule.All Rule.Tight → ∀ {path o v}, v.Counts encoded →
    rule.check (c.hop encoded hops) encoded path v = some o → o.accepted = true →
      o.output = some v → rule.Rests c encoded v
  | .accept _, _, path, o, v, _, _, _, _ => .accept
  | .string r, _, path, o, v, _, _, _, _ => .string
  | .number r, _, path, o, v, _, _, _, _ => .number
  | .boolean, _, path, o, v, _, _, _, _ => .boolean
  | .enum values, _, path, o, v, _, _, _, _ => .enum
  | .union branches, ⟨_, hall⟩, path, o, v, hv, h, haccepted, houtput => by
    unfold Rule.check at h
    obtain ⟨found, hfound, h⟩ := Option.bind_eq_some_iff.mp h
    cases found with
    | none => cases h; cases houtput
    | some outcome =>
      cases h
      obtain ⟨before, branch, after, rfl, hrefuse, hconforms, hbranch⟩ :=
        Rule.firstAccepted_rests htight hrests branches hall hv hfound haccepted houtput
      exact .union hrefuse hconforms hbranch
  | .array element low high, ⟨hrequired, hall⟩, path, o, v, hv, h, haccepted, houtput => by
    unfold Rule.check at h
    split at h
    · cases h; cases houtput
    · next items hitems =>
      obtain ⟨outcomes, houtcomes, h⟩ := Option.bind_eq_some_iff.mp h
      cases h
      obtain ⟨-, hall_clean⟩ := Check.gather_accepted_iff.mp haccepted
      have harr := Option.some.inj houtput
      subst harr
      cases hitems
      have hchecked := Check.elements_some houtcomes
      rw [List.forall₂_map_left_iff, List.forall₂_same] at hchecked
      refine .array fun item hitem => ?_
      obtain ⟨o, ho, rfl⟩ := List.mem_map.mp hitem
      obtain ⟨p, happly⟩ := hchecked o ho
      have hclean := hall_clean o ho
      have hconforms := Validator.apply_conforms (hop_conforms htight _) element hall happly hclean
      obtain ⟨w, hw⟩ := hconforms.2 hrequired
      rw [hw] at happly ⊢
      exact Validator.apply_rests htight hrests element hall happly hclean hw
  | .object fields, ⟨_, hall⟩, path, o, v, hv, h, haccepted, houtput => by
    unfold Rule.check at h
    split at h
    · next given =>
      obtain ⟨⟨output, issues⟩, hfields, h⟩ := Option.bind_eq_some_iff.mp h
      cases h
      cases houtput
      refine .object fun name field hfield w hw => ?_
      exact Rule.checkFields_rests htight hrests fields hall hfields
        (List.isEmpty_iff.mp haccepted) name field hfield w hw hw
    · cases h; cases houtput
  | .named name, _, path, o, v, hv, h, haccepted, houtput => by
    unfold Rule.check at h
    exact hrests name path v o hv h haccepted houtput

theorem Rule.firstAccepted_rests (htight : c.Tight)
    (hrests : c.HopRests encoded (c.hop encoded hops)) : (branches : List Validator) →
    Validator.AllBranches Rule.Tight branches → ∀ {path o v}, v.Counts encoded →
    Rule.firstAccepted (c.hop encoded hops) encoded branches path v = some (some o) →
    o.accepted = true → o.output = some v →
    ∃ before branch after, branches = before ++ branch :: after ∧
      (∀ other ∈ before, c.Refuses encoded other v) ∧ branch.Conforms c encoded v ∧
        branch.Rests c encoded v
  | [], _, path, o, v, _, h, _, _ => by
    unfold Rule.firstAccepted at h
    cases h
  | branch :: rest, ⟨hbranch, hall⟩, path, o, v, hv, h, haccepted, houtput => by
    unfold Rule.firstAccepted at h
    obtain ⟨outcome, happly, h⟩ := Option.bind_eq_some_iff.mp h
    split at h
    · cases h
      refine ⟨[], branch, rest, rfl, nofun, ?_, ?_⟩
      · have hconforms := Validator.apply_conforms (hop_conforms htight _) branch hbranch happly
        exact (hconforms haccepted).1 v houtput
      · exact Validator.apply_rests htight hrests branch hbranch happly haccepted houtput
    · next hrefused =>
      obtain ⟨before, found, after, rfl, hrefuse, hfound⟩ :=
        Rule.firstAccepted_rests htight hrests rest hall hv h haccepted houtput
      refine ⟨branch :: before, found, after, rfl, fun other hother => ?_, hfound⟩
      rcases List.mem_cons.mp hother with rfl | hother
      · obtain ⟨o', ho', halike⟩ := outcome_of_apply happly
        exact ⟨o', ho', halike.trans (Bool.not_eq_true _ ▸ hrefused)⟩
      · exact hrefuse other hother

theorem Rule.checkFields_rests (htight : c.Tight)
    (hrests : c.HopRests encoded (c.hop encoded hops)) : (fields : List (String × Validator)) →
    Validator.AllFields Rule.Tight fields → ∀ {path given output result},
    Rule.checkFields (c.hop encoded hops) encoded fields path given output = some result →
    result.2 = [] → ∀ name field, Table.get? name (Table.ofList fields) = some field →
    ∀ w, Table.get? name given = some w → Table.get? name result.1 = some w →
      field.Rests c encoded w
  | [], _, path, given, output, result, _, _, name, field, hfield => by cases hfield
  | (key, first) :: rest, ⟨hfirst, hall⟩, path, given, output, result, h, hnone, name, field,
      hfield => by
    intro w hw hkept
    unfold Rule.checkFields at h
    obtain ⟨o, happly, h⟩ := Option.bind_eq_some_iff.mp h
    obtain ⟨more, hrest, h⟩ := Option.bind_eq_some_iff.mp h
    cases h
    obtain ⟨hclean, hmore⟩ := List.append_eq_nil_iff.mp hnone
    rw [Table.get?_ofList_cons] at hfield
    rcases Option.or_eq_some_iff.mp hfield with hlater | ⟨hlater, hfield⟩
    · exact Rule.checkFields_rests htight hrests rest hall hrest hmore name field hlater w hw hkept
    · split at hfield
      · next hname =>
        cases hfield
        have hput := (Rule.checkFields_conforms (hop_conforms htight _) rest hall hrest hmore
          name).1 hlater
        rw [Check.get?_put, if_pos hname, hkept] at hput
        rw [← hname, hw] at happly
        exact Validator.apply_rests htight hrests first hfirst happly
          (List.isEmpty_iff.mpr hclean) hput.symm
      · cases hfield

end

end Kept

namespace Cache

variable {c : Cache} {encoded : Bool} {validator : Validator} {v : Json} {o : Outcome}

theorem hop_rests (htight : c.Tight) (hops : Nat) : c.HopRests encoded (c.hop encoded hops) := by
  induction hops with
  | zero =>
    intro name path v o _ h
    cases h
  | succ hops ih =>
    intro name path v o hv h haccepted houtput
    rcases hop_cases h with rfl | ⟨⟨required, nullable, rule⟩, hget, h⟩
    · cases houtput
    · exact .named hget
        (Rule.check_rests htight ih rule (htight name _ hget) hv h haccepted houtput)

theorem rests_of_kept (htight : c.Tight) (hall : validator.All Rule.Tight)
    (ho : c.outcome? validator encoded v = some o) (haccepted : o.accepted = true)
    (houtput : o.output = some v) : validator.Rests c encoded v :=
  validator.apply_rests htight (hop_rests htight _) hall ho haccepted houtput

end Cache

theorem StringRule.check_kept {r : StringRule} {text : String} (hmeets : r.Meets text)
    (hkeeps : Format.Keeps r.format text) (path : FieldPath) :
    r.check path (.str text) = Outcome.kept (.str text) := by
  have hbroken : r.broken path (.str text) text = [] :=
    r.broken_eq_nil_iff.mpr ⟨hmeets.long, hmeets.short, hmeets.pattern⟩
  unfold check
  rw [(Coerce.formatted_str_iff hmeets.format).mpr hkeeps]
  dsimp only
  rw [hbroken]
  rfl

theorem NumberRule.check_kept {r : NumberRule} {n : Number} (hmeets : r.Meets n)
    (path : FieldPath) : r.check path (.num n) = Outcome.kept (.num n) := by
  have hbroken : r.broken path (.num n) n.toDouble = [] :=
    r.broken_eq_nil_iff.mpr ⟨hmeets.low, hmeets.high⟩
  unfold check
  rw [Coerce.number_num_iff.mpr hmeets.whole]
  dsimp only
  rw [hbroken]
  rfl

theorem Check.enum_kept {values : List String} {text : String} (h : text ∈ values)
    (path : FieldPath) : Check.enum values path (.str text) = Outcome.kept (.str text) := by
  unfold Check.enum
  exact if_pos (List.contains_iff_mem.mpr h)

/-- What holds of each item from some number on holds of all from some number on. -/
theorem exists_common {α : Type} {P : Nat → α → Prop} {items : List α}
    (h : ∀ item ∈ items, ∃ least, ∀ n, least ≤ n → P n item) :
    ∃ least, ∀ n, least ≤ n → ∀ item ∈ items, P n item := by
  induction items with
  | nil => exact ⟨0, fun _ _ => nofun⟩
  | cons item rest ih =>
    obtain ⟨first, hfirst⟩ := h item List.mem_cons_self
    obtain ⟨later, hlater⟩ := ih fun other hother => h other (List.mem_cons_of_mem _ hother)
    refine ⟨max first later, fun n hn other hother => ?_⟩
    rcases List.mem_cons.mp hother with rfl | hother
    · exact hfirst n (by omega)
    · exact hlater n (by omega) other hother

theorem Check.elements_kept {check : FieldPath → Json → Option Outcome} {items : List Json}
    (h : ∀ item ∈ items, ∀ p, check p item = some (Outcome.kept item)) (path : FieldPath) (i : Nat) :
    elements check path i items = some (items.map Outcome.kept) := by
  induction items generalizing i with
  | nil => rfl
  | cons item rest ih =>
    have hrest := ih (fun other hother => h other (List.mem_cons_of_mem _ hother)) (i + 1)
    unfold elements
    rw [h item List.mem_cons_self, hrest]
    rfl

theorem Check.gather_kept (items : List Json) :
    gather (items.map Outcome.kept) [] = Outcome.kept (.arr items) := by
  have houtputs : (items.map Outcome.kept).map (fun o => Json.orNull o.output) = items := by
    rw [List.map_map]
    exact List.map_id items
  have hissues : (items.map Outcome.kept).flatMap Outcome.issues = [] := by
    rw [List.flatMap_eq_nil_iff]
    intro o ho
    obtain ⟨item, -, rfl⟩ := List.mem_map.mp ho
    rfl
  unfold gather
  rw [houtputs, hissues]
  rfl

/-- An object whose declared fields all stay as they are stays as it is. -/
theorem Rule.checkFields_kept {hop : Hop Option} {encoded : Bool}
    {fields : List (String × Validator)} {given : List (String × Json)}
    (h : ∀ entry ∈ fields, ∀ path, ∃ o, o.issues = [] ∧ Check.put entry.1 o given = given ∧
      entry.2.apply hop encoded path (Table.get? entry.1 given) = some o) (path : FieldPath) :
    Rule.checkFields hop encoded fields path given given = some (given, []) := by
  induction fields with
  | nil => rfl
  | cons entry rest ih =>
    obtain ⟨name, field⟩ := entry
    obtain ⟨o, hissues, hput, happly⟩ := h _ List.mem_cons_self (path.push (.key name))
    have hrest := ih fun other hother => h other (List.mem_cons_of_mem _ hother)
    dsimp only at hput happly
    unfold Rule.checkFields
    rw [happly]
    dsimp only [bind, Option.bind]
    rw [hput, hrest, hissues]
    rfl

section Again

variable {c : Cache} {encoded : Bool} {hops : Nat} {path : FieldPath}

/-- From some number of hops on, checking the value hands it on as it is. -/
def Validator.Settles (c : Cache) (encoded : Bool) (validator : Validator) (w : Json) : Prop :=
  ∃ least, ∀ hops, least ≤ hops → ∀ path,
    validator.apply (c.hop encoded hops) encoded path (some w) = some (Outcome.kept w)

/-- The same of the rule alone. -/
def Rule.Settles (c : Cache) (encoded : Bool) (rule : Rule) (w : Json) : Prop :=
  ∃ least, ∀ hops, least ≤ hops → ∀ path,
    rule.check (c.hop encoded hops) encoded path w = some (Outcome.kept w)

theorem Rule.settles_of_check {rule : Rule} {w : Json}
    (h : ∀ hops path, rule.check (c.hop encoded hops) encoded path w = some (Outcome.kept w)) :
    rule.Settles c encoded w := ⟨0, fun hops _ path => h hops path⟩

theorem Validator.apply_null {required : Bool} {rule : Rule} {hop : Hop Option} :
    Validator.apply hop encoded ⟨required, true, rule⟩ path (some .null) =
      some (Outcome.kept .null) := by
  unfold Validator.apply
  rfl

theorem Validator.settles_null {required : Bool} {rule : Rule} :
    Validator.Settles c encoded ⟨required, true, rule⟩ .null :=
  ⟨0, fun _ _ _ => Validator.apply_null⟩

theorem Validator.settles_of_counts {required nullable : Bool} {rule : Rule} {w : Json}
    (hcounts : w.Counts encoded) (h : rule.Settles c encoded w) :
    Validator.Settles c encoded ⟨required, nullable, rule⟩ w := by
  obtain ⟨least, hleast⟩ := h
  refine ⟨least, fun hops hle path => ?_⟩
  rw [Validator.apply_of_counts hcounts]
  exact hleast hops hle path

theorem Validator.apply_absent {required nullable : Bool} {rule : Rule} {hop : Hop Option} :
    Validator.apply hop encoded ⟨required, nullable, rule⟩ path none =
      some (Check.missing required rule.expected path none) := by
  unfold Validator.apply
  rfl

theorem Rule.settles_union {before after : List Validator} {branch : Validator} {w : Json}
    (hbefore : ∀ other ∈ before, c.Refuses encoded other w)
    (hbranch : branch.Settles c encoded w) :
    (Rule.union (before ++ branch :: after)).Settles c encoded w := by
  obtain ⟨least, hleast⟩ := hbranch
  refine ⟨max least (c.hopLimit w), fun hops hle path => ?_⟩
  have hfirst : Rule.firstAccepted (c.hop encoded hops) encoded (before ++ branch :: after) path w =
      some (some (Outcome.kept w)) := by
    induction before with
    | nil =>
      rw [List.nil_append]
      unfold Rule.firstAccepted
      rw [hleast hops (by omega) path]
      rfl
    | cons other rest ih =>
      obtain ⟨o, ho, hrefused⟩ :=
        (hbefore other List.mem_cons_self).apply (by omega : c.hopLimit w ≤ hops) path
      have hrest := ih fun later hlater => hbefore later (List.mem_cons_of_mem _ hlater)
      rw [List.cons_append]
      unfold Rule.firstAccepted
      rw [ho]
      dsimp only [bind, Option.bind]
      rw [hrefused]
      exact hrest
  unfold Rule.check
  rw [hfirst]
  rfl

theorem Rule.settles_array {element : Validator} {low high : Option Nat} {items : List Json}
    (hlow : ∀ n ∈ low, n ≤ items.length) (hhigh : ∀ n ∈ high, items.length ≤ n)
    (hitems : ∀ item ∈ items, element.Settles c encoded item) :
    (Rule.array element low high).Settles c encoded (.arr items) := by
  obtain ⟨least, hleast⟩ := exists_common hitems
  refine ⟨least, fun hops hle path => ?_⟩
  have helements := Check.elements_kept (fun item hitem p => hleast hops hle item hitem p) path 0
  have hbroken : Check.brokenCounts low high items.length path (.arr items) = [] :=
    Check.brokenCounts_eq_nil_iff.mpr ⟨hlow, hhigh⟩
  unfold Rule.check
  dsimp only [Check.items?]
  rw [helements, hbroken]
  dsimp only [bind, Option.bind, pure]
  rw [Check.gather_kept]

theorem Rule.settles_object {fields : List (String × Validator)} {given : List (String × Json)}
    (hordered : Table.Ordered given)
    (hfields : ∀ entry ∈ fields, (Table.get? entry.1 given = none → entry.2.required = false) ∧
      ∀ w, Table.get? entry.1 given = some w → entry.2.Settles c encoded w) :
    (Rule.object fields).Settles c encoded (.obj given) := by
  have hstay : ∀ entry ∈ fields, ∃ least, ∀ hops, least ≤ hops → ∀ path, ∃ o, o.issues = [] ∧
      Check.put entry.1 o given = given ∧
      entry.2.apply (c.hop encoded hops) encoded path (Table.get? entry.1 given) = some o := by
    rintro ⟨name, field⟩ hmem
    obtain ⟨habsent, hpresent⟩ := hfields _ hmem
    dsimp only at habsent hpresent ⊢
    cases hget : Table.get? name given with
    | none =>
      obtain ⟨required, nullable, rule⟩ := field
      cases habsent hget
      exact ⟨0, fun hops _ path => ⟨Outcome.omitted, rfl, Table.erase_of_none hget,
        Validator.apply_absent⟩⟩
    | some w =>
      obtain ⟨least, hleast⟩ := hpresent w hget
      exact ⟨least, fun hops hle path => ⟨Outcome.kept w, rfl, Table.insert_of_some hordered hget,
        hleast hops hle path⟩⟩
  obtain ⟨least, hleast⟩ := exists_common hstay
  refine ⟨least, fun hops hle path => ?_⟩
  have hgiven := Rule.checkFields_kept (fun entry hentry p => hleast hops hle entry hentry p) path
  unfold Rule.check
  dsimp only
  rw [hgiven]
  rfl

theorem Rule.settles_named {name : TypeName} {target : Validator} {w : Json}
    (hget : c.get? name = some target) (htarget : target.rule.Settles c encoded w) :
    (Rule.named name).Settles c encoded w := by
  obtain ⟨least, hleast⟩ := htarget
  refine ⟨least + 1, fun hops hle path => ?_⟩
  obtain ⟨hops, rfl⟩ : ∃ fewer, hops = fewer + 1 := ⟨hops - 1, by omega⟩
  unfold Rule.check
  rw [hop_of_cached hget]
  exact hleast hops (by omega) path

mutual

/-- A conforming value that rests is handed on as it is, if its timestamps keep their form. -/
theorem Validator.Rests.settles (hdistinct : c.Distinct) : {validator : Validator} → {w : Json} →
    validator.Rests c encoded w → validator.Keeps c encoded w → validator.Conforms c encoded w →
      validator.All Rule.Distinct → w.Ordered → validator.Settles c encoded w
  | _, _, _, _, .null, _, _ => Validator.settles_null
  | _, _, .null, _, .value hcounts _, _, _ => absurd rfl hcounts.notNull
  | _, _, .value _, .null, .value hcounts _, _, _ => absurd rfl hcounts.notNull
  | _, _, .value hrests, .value hkeeps, .value hcounts hconforms, hall, hordered =>
    Validator.settles_of_counts hcounts
      (Rule.Rests.settles hdistinct hrests hkeeps hconforms hall hordered)

theorem Rule.Rests.settles (hdistinct : c.Distinct) : {rule : Rule} → {w : Json} →
    rule.Rests c encoded w → rule.Keeps c encoded w → rule.Conforms c encoded w →
      rule.All Rule.Distinct → w.Ordered → rule.Settles c encoded w
  | _, _, .accept, _, _, _, _ => Rule.settles_of_check fun _ _ => rfl
  | _, _, .string, .string hkeeps, .string hmeets, _, _ =>
    Rule.settles_of_check fun _ path => congrArg some (StringRule.check_kept hmeets hkeeps path)
  | _, _, .number, _, .number hmeets, _, _ =>
    Rule.settles_of_check fun _ path => congrArg some (NumberRule.check_kept hmeets path)
  | _, _, .boolean, _, .boolean, _, _ => Rule.settles_of_check fun _ _ => rfl
  | _, _, .enum, _, .enum hmem, _, _ =>
    Rule.settles_of_check fun _ path => congrArg some (Check.enum_kept hmem path)
  | .union _, _, .union hbefore hconforms hrests, .union hkeeps, _, ⟨_, hall⟩, hordered => by
    refine Rule.settles_union hbefore ?_
    have hbranch := hkeeps _ (List.mem_append_right _ List.mem_cons_self) hconforms
    have hdistinctly := Validator.all_of_mem hall (List.mem_append_right _ List.mem_cons_self)
    exact Validator.Rests.settles hdistinct hrests hbranch hconforms hdistinctly hordered
  | _, _, .array hrests, .array hkeeps, .array hlow hhigh hconforms, ⟨_, hall⟩, .arr hordered => by
    refine Rule.settles_array hlow hhigh fun item hitem => ?_
    exact Validator.Rests.settles hdistinct (hrests item hitem) (hkeeps item hitem)
      (hconforms item hitem) hall (hordered item hitem)
  | .object fields, .obj given, .object hrests, .object hkeeps, .object hrequired hconforms,
      ⟨hnodup, hall⟩, hordered => by
    have hkeys : Table.Ordered given := by
      cases hordered with
      | obj hkeys _ => exact hkeys
    refine Rule.settles_object hkeys ?_
    rintro ⟨name, field⟩ hmem
    have hfield := Table.get?_ofList_of_mem hnodup hmem
    constructor
    · intro habsent
      cases hneeded : field.required with
      | false => rfl
      | true =>
        obtain ⟨w, hw⟩ := hrequired name field hfield hneeded
        rw [habsent] at hw
        cases hw
    · intro w hw
      exact Validator.Rests.settles hdistinct (hrests name field hfield w hw)
        (hkeeps name field hfield w hw) (hconforms name field hfield w hw)
        (Validator.all_of_mem_fields hall hmem) (hordered.get? hw)
  | .named _, _, .named hget hrests, .named hget' hkeeps, .named hget'' hconforms, _, hordered => by
    cases Option.some.inj (hget.symm.trans hget')
    cases Option.some.inj (hget.symm.trans hget'')
    refine Rule.settles_named hget ?_
    exact Rule.Rests.settles hdistinct hrests hkeeps hconforms
      (Validator.all_rule (hdistinct _ _ hget)) hordered

end

end Again

namespace Cache

variable {c : Cache} {encoded : Bool} {validator : Validator} {w : Json}

theorem outcome_of_settles (h : validator.Settles c encoded w) :
    c.outcome? validator encoded w = some (Outcome.kept w) := by
  obtain ⟨least, hleast⟩ := h
  unfold outcome?
  rw [← apply_hops validator (Nat.le_max_right least (c.hopLimit w))]
  exact hleast _ (Nat.le_max_left _ _) _

/-- Of the values that conform, checking hands on as they are just those that rest. -/
theorem outcome_kept_iff (htight : c.Tight) (hdistinct : c.Distinct)
    (htightly : validator.All Rule.Tight) (hdistinctly : validator.All Rule.Distinct)
    (hordered : w.Ordered) (hconforms : validator.Conforms c encoded w)
    (hkeeps : validator.Keeps c encoded w) :
    c.outcome? validator encoded w = some (Outcome.kept w) ↔ validator.Rests c encoded w := by
  constructor
  · intro h
    exact rests_of_kept htight htightly h rfl rfl
  · intro hrests
    exact outcome_of_settles (hrests.settles hdistinct hkeeps hconforms hdistinctly hordered)

end Cache

end Conform
