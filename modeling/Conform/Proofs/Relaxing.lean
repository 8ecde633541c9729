import Conform.Proofs.Descent
import Conform.Proofs.Ending

/-!
# Relaxed checks

A string channel reads a scalar as a list of itself, and the text `undefined`
as nothing. For a value without that text it only relaxes the check: what is
accepted elsewhere is accepted there. A union may go over to an earlier branch,
which accepts only on the string channel; where there is none, even the output
stays the same.
-/

namespace Conform

open Cache Relation

/-- No text in the value is `undefined`. -/
inductive Json.Defined : Json → Prop
  | null : Json.Defined .null
  | bool (b : Bool) : Json.Defined (.bool b)
  | num (n : Number) : Json.Defined (.num n)
  | str {text : String} : text ≠ "undefined" → Json.Defined (.str text)
  | arr {items : List Json} : (∀ item ∈ items, item.Defined) → Json.Defined (.arr items)
  | obj {fields : List (String × Json)} : (∀ entry ∈ fields, entry.2.Defined) →
      Json.Defined (.obj fields)

/-- The relaxed outcome is accepted as well and, where nothing else is chosen, keeps the same. -/
structure Outcome.Relaxed (fixed : Prop) (strict relaxed : Outcome) : Prop where
  accepted : relaxed.accepted = true
  output : fixed → relaxed.output = strict.output

section Relaxing

variable {c : Cache} {rule : Rule} {validator : Validator} {hops : Nat} {path : FieldPath}
  {found : Option Json} {v : Json} {o o' : Outcome}

namespace Json

/-- A value without the text `undefined` is there on every channel, unless it is null. -/
theorem Defined.counts (h : v.Defined) (hnull : v ≠ .null) (encoded : Bool) :
    v.Counts encoded := by
  by_contra hcounts
  obtain ⟨-, rfl⟩ := (not_counts_iff hnull).mp hcounts
  cases h with
  | str htext => exact htext rfl

theorem Defined.get? {given : List (String × Json)} {name : String} (h : (Json.obj given).Defined)
    (hget : Table.get? name given = some v) : v.Defined := by
  cases h with
  | obj hentries => exact hentries _ (Table.mem_of_get? hget)

end Json

namespace Outcome.Relaxed

variable {fixed : Prop}

theorem refl (haccepted : o.accepted = true) : Outcome.Relaxed fixed o o :=
  ⟨haccepted, fun _ => rfl⟩

/-- Outcomes that are relaxed one by one are accepted together, and keep the same together. -/
theorem all {strict relaxed : List Outcome}
    (h : List.Forall₂ (Outcome.Relaxed fixed) strict relaxed) :
    (∀ o ∈ relaxed, o.accepted = true) ∧
      (fixed → List.Forall₂ (fun o o' => o.output = o'.output) relaxed strict) := by
  induction h with
  | nil => exact ⟨List.forall_mem_nil _, fun _ => .nil⟩
  | cons hhead _ ih =>
    constructor
    · exact List.forall_mem_cons.mpr ⟨hhead.accepted, ih.1⟩
    · exact fun hfixed => .cons (hhead.output hfixed) (ih.2 hfixed)

end Outcome.Relaxed

/-- What the rule accepts within some hops, it accepts on a string channel too, if it ends there. -/
def Rule.Relaxes (c : Cache) (hops : Nat) (rule : Rule) : Prop :=
  ∀ path v o o', v.Defined → rule.check (c.hop false hops) false path v = some o →
    o.accepted = true → rule.EndsWith c true path v o' → o.Relaxed (rule.Unionless c) o'

theorem Validator.apply_relaxed (hrule : validator.rule.Relaxes c hops)
    (hfound : ∀ v, found = some v → v.Defined)
    (h : validator.apply (c.hop false hops) false path found = some o) (haccepted : o.accepted = true)
    (h' : validator.EndsWith c true path found o') :
    o.Relaxed (validator.rule.Unionless c) o' := by
  have hends : validator.EndsWith c false path found o := ⟨hops, h⟩
  cases found with
  | none =>
    rw [endsWith_of_absent rfl] at hends h'
    cases hends.trans h'.symm
    exact .refl haccepted
  | some v =>
    by_cases hnull : v = .null
    · subst hnull
      rw [endsWith_null] at hends h'
      cases hends.trans h'.symm
      exact .refl haccepted
    · have hdefined := hfound v rfl
      have hcheck : validator.rule.check (c.hop false hops) false path v = some o := by
        obtain ⟨required, nullable, rule⟩ := validator
        rwa [apply_of_counts (hdefined.counts hnull false)] at h
      exact hrule path v o o' hdefined hcheck haccepted
        ((endsWith_of_counts (hdefined.counts hnull true)).mp h')

/-- A rule that reads the value the same on every channel relaxes. -/
theorem Rule.relaxes_of_same {outcome : FieldPath → Json → Outcome}
    (h : ∀ hop encoded path v, rule.check (m := Option) hop encoded path v = some (outcome path v)) :
    rule.Relaxes c hops := by
  intro path v o o' _ hcheck haccepted hends
  rw [h] at hcheck
  rw [endsWith_of_check fun hop => h hop true path v] at hends
  cases hcheck
  cases hends
  exact .refl haccepted

/-- An accepting branch accepts on, so that the union does not come out without one. -/
theorem Rule.relaxes_union {branches : List Validator}
    (h : ∀ branch ∈ branches, branch.rule.Relaxes c hops) : (union branches).Relaxes c hops := by
  intro path v o o' hdefined hcheck haccepted hends
  rcases check_union_cases hcheck with ⟨branch, hmem, happly, -⟩ | rfl
  · rcases endsWith_union.mp hends with ⟨_, _, _, -, -, -, haccepted'⟩ | ⟨hrefused, -⟩
    · exact ⟨haccepted', fun hunionless => absurd .refl (hunionless branches)⟩
    · obtain ⟨o', ho', hrefused⟩ := Validator.refuses_iff.mp (hrefused branch hmem)
      have hrelaxed := Validator.apply_relaxed (h branch hmem) (fun w hw => by cases hw; exact hdefined)
        happly haccepted ho'
      rw [hrelaxed.accepted] at hrefused
      cases hrefused
  · cases haccepted

theorem Rule.relaxes_array {element : Validator} {low high : Option Nat}
    (h : element.rule.Relaxes c hops) : (array element low high).Relaxes c hops := by
  intro path v o o' hdefined hcheck haccepted hends
  cases v with
  | arr items =>
    have hitems : ∀ item ∈ items, item.Defined := by
      cases hdefined with
      | arr hitems => exact hitems
    rcases check_array_cases hcheck with ⟨_, outcomes, ⟨⟩, hchecked, rfl⟩ | rfl
    · obtain ⟨outcomes', hchecked', rfl⟩ := (endsWith_array rfl).mp hends
      obtain ⟨hcounts, hall⟩ := Check.gather_accepted_iff.mp haccepted
      have hrelaxed : List.Forall₂ (Outcome.Relaxed (element.rule.Unionless c)) outcomes outcomes' := by
        refine forall₂_of_common hchecked hchecked' ?_
        intro entry hentry o ho o' hstrict hends
        have hmem : entry.1 ∈ items := (List.mem_zipIdx' hentry).2 ▸ List.getElem_mem _
        refine Validator.apply_relaxed h (fun w hw => ?_) hstrict (hall o ho) hends
        cases hw
        exact hitems _ hmem
      obtain ⟨hclean, hsame⟩ := Outcome.Relaxed.all hrelaxed
      constructor
      · exact Check.gather_accepted_iff.mpr ⟨hcounts, hclean⟩
      · intro hunionless
        have houtputs := hsame (hunionless.leads .element)
        have hmap : outcomes'.map (fun o => Json.orNull o.output) =
            outcomes.map (fun o => Json.orNull o.output) := by
          rw [← List.forall₂_eq_eq_eq, List.forall₂_map_left_iff, List.forall₂_map_right_iff]
          exact houtputs.imp fun _ _ heq => by rw [heq]
        rw [Check.gather, Check.gather, hmap]
    · cases haccepted
  | _ =>
    cases hcheck
    cases haccepted

theorem Rule.relaxes_object {fields : List (String × Validator)}
    (h : ∀ entry ∈ fields, entry.2.rule.Relaxes c hops) : (object fields).Relaxes c hops := by
  intro path v o o' hdefined hcheck haccepted hends
  cases v with
  | obj given =>
    obtain ⟨result, hresult, hcheck⟩ := Option.bind_eq_some_iff.mp hcheck
    obtain ⟨outcomes, hchecked, rfl⟩ := checkFields_eq_some_iff.mp hresult
    cases hcheck
    obtain ⟨outcomes', hchecked', rfl⟩ := endsWith_object.mp hends
    have hall := Outcome.all_accepted_iff.mp haccepted
    have hrelaxed : List.Forall₂ (Outcome.Relaxed ((object fields).Unionless c)) outcomes outcomes' := by
      refine forall₂_of_common hchecked hchecked' ?_
      intro entry hentry o ho o' hstrict hends
      have hfield := Validator.apply_relaxed (h entry hentry) (fun w hw => hdefined.get? hw) hstrict
        (hall o ho) hends
      exact ⟨hfield.accepted, fun hunionless => hfield.output (hunionless.leads (.field hentry))⟩
    obtain ⟨hclean, hsame⟩ := Outcome.Relaxed.all hrelaxed
    constructor
    · exact Outcome.all_accepted_iff.mpr hclean
    · intro hunionless
      rw [Check.putAll_congr (hsame hunionless)]
  | _ =>
    cases hcheck
    cases haccepted

/-- Every rule relaxes, if the rules of the types that it hops to do. -/
theorem Rule.relaxes_of_hops (hhop : ∀ name, (named name).Relaxes c hops) (rule : Rule) :
    rule.Relaxes c hops := by
  induction rule using Rule.induction with
  | step rule ih =>
    cases rule with
    | union branches => exact relaxes_union ih
    | array element low high => exact relaxes_array (ih element List.mem_cons_self)
    | object fields => exact relaxes_object fun entry hentry => ih entry.2 (List.mem_map_of_mem hentry)
    | named name => exact hhop name
    | _ => exact relaxes_of_same fun _ _ _ _ => rfl

namespace Cache

/-- However many hops there are, a string channel relaxes them: induction on the hops. -/
theorem hop_relaxes (c : Cache) (hops : Nat) (name : TypeName) :
    (Rule.named name).Relaxes c hops := by
  induction hops generalizing name with
  | zero =>
    intro path v o o' _ hcheck
    cases hcheck
  | succ hops ih =>
    intro path v o o' hdefined hcheck haccepted hends
    rcases hop_cases hcheck with rfl | ⟨target, hget, hcheck⟩
    · cases haccepted
    · rcases Rule.endsWith_named.mp hends with ⟨hnone, -⟩ | ⟨target', hget', hends⟩
      · rw [hget] at hnone
        cases hnone
      · rw [hget] at hget'
        cases hget'
        have htarget := Rule.relaxes_of_hops ih target.rule path v o o' hdefined hcheck haccepted hends
        exact ⟨htarget.accepted, fun hunionless => htarget.output (hunionless.leads (.named hget))⟩

/-- What is accepted on another channel is accepted on a string channel. -/
theorem outcome_relaxed (hdefined : v.Defined) (ho : c.outcome? validator false v = some o)
    (haccepted : o.accepted = true) (ho' : c.outcome? validator true v = some o') :
    o.Relaxed (validator.rule.Unionless c) o' := by
  refine Validator.apply_relaxed (Rule.relaxes_of_hops (hop_relaxes c _) validator.rule)
    (fun w hw => ?_) ho haccepted (Validator.endsWith_iff_outcome.mpr ho')
  cases hw
  exact hdefined

end Cache

end Relaxing

namespace Session

variable {store : Store} {calls : List Call} {target : Target} {strict relaxed : Channel} {v w : Json}

/--
What is accepted on a channel that is not string-encoded is accepted by the same validator, with the
same cache, on one that is, if checking it ends there. Where no union is reached, it comes out the same.
-/
theorem accepted_relaxes (hstrict : strict.stringEncoded = false)
    (hrelaxed : relaxed.stringEncoded = true) (hdefined : v.Defined)
    (h : ((after store calls).validate v target strict).1 = .accepted w) :
    ∃ validator t,
      (after store calls).validatorFor target (locationOf strict) = (.ok validator, t) ∧
      (Verdict.ofOutcome relaxed target.label
          (t.cache.outcome? validator relaxed.stringEncoded v) ≠ .endless →
        ∃ w', Verdict.ofOutcome relaxed target.label
            (t.cache.outcome? validator relaxed.stringEncoded v) = .accepted w' ∧
          (validator.rule.Unionless t.cache → w' = w)) := by
  obtain ⟨validator, hfor, o, ho, haccepted, rfl⟩ := exists_outcome_of_accepted h
  refine ⟨validator, _, hfor, fun hends => ?_⟩
  rw [hstrict] at ho
  rw [hrelaxed] at hends ⊢
  cases ho' : Cache.outcome? _ validator true v with
  | none =>
    rw [ho'] at hends
    exact absurd rfl hends
  | some o' =>
    have hout := outcome_relaxed hdefined ho haccepted ho'
    refine ⟨_, Verdict.ofOutcome_eq_accepted_iff.mpr ⟨o', rfl, hout.accepted, rfl⟩, ?_⟩
    exact fun hunionless => by rw [hout.output hunionless]

/-- A list of integers, or else an integer. -/
def listedDefinition : Definition where
  oneOf := some [
    { keywords := { kinds := some (.one "array") }, items := some integerDefinition },
    integerDefinition]

/-- An integer of a body is a list of itself in a query: it is accepted on, by the earlier branch. -/
theorem listed_integer_relaxes :
    ((after Store.empty []).validate (.num (.int 5)) (.inline listedDefinition) .body).1 =
        .accepted (.num (.int 5)) ∧
      ∃ validator t, (after Store.empty []).validatorFor (.inline listedDefinition)
          (locationOf .body) = (.ok validator, t) ∧
        ∃ w, Verdict.ofOutcome .query "inline schema"
            (t.cache.outcome? validator true (.num (.int 5))) = .accepted w ∧
          w ≠ .num (.int 5) := by
  have hbody : ((after Store.empty []).validate (.num (.int 5)) (.inline listedDefinition)
      .body).1 = .accepted (.num (.int 5)) := Verdict.eq_accepted (by decide +kernel)
  have hquery : (((after Store.empty []).validatorFor (.inline listedDefinition)
      (locationOf .body)).1.toOption.bind fun validator =>
        (Verdict.ofOutcome .query "inline schema" (((after Store.empty []).validatorFor
          (.inline listedDefinition) (locationOf .body)).2.cache.outcome? validator true
            (.num (.int 5)))).value?) = some (.arr [.num (.int 5)]) := by decide +kernel
  obtain ⟨validator, t, hfor, hrelaxes⟩ :=
    accepted_relaxes rfl (rfl : Channel.query.stringEncoded = true) (.num _) hbody
  rw [hfor] at hquery
  have hlist := Verdict.eq_accepted hquery
  obtain ⟨w, hw, -⟩ := hrelaxes fun hendless => by cases hendless.symm.trans hlist
  refine ⟨hbody, validator, t, hfor, w, hw, ?_⟩
  rintro rfl
  cases hw.symm.trans hlist

end Session

end Conform
