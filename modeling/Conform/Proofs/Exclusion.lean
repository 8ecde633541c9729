import Conform.Proofs.Referring

/-!
# Excluded types

A type that is left unvalidated is never looked at: stores that differ in
nothing but what they say of such types are told apart by no calls. As a target
such a type takes every value as it is.
-/

namespace Conform

open Cache

namespace Store

variable {s t : Store} {c : Cache} {name : TypeName} {location : String}

/-- The stores leave the same types unvalidated, and say the same of everything else. -/
structure SameValidated (s t : Store) : Prop where
  excluded : ∀ name, s.isExcluded name = t.isExcluded name
  operations : s.document.operations = t.document.operations
  definition : ∀ name, s.isExcluded name = false → s.definition? name = t.definition? name
  fields : ∀ name, s.isExcluded name = false → s.fields? name = t.fields? name

section

variable (h : s.SameValidated t)

include h

theorem SameValidated.lower_eq (hname : s.isExcluded name = false) (location : String) :
    s.lower name location = t.lower name location := by
  have hobject : ∀ d, s.isObject name d = t.isObject name d := by
    intro d
    unfold isObject
    rw [h.fields name hname]
  unfold lower
  rw [h.definition name hname, h.fields name hname]
  simp only [hobject]

/-- References resolve alike where the types that are validated are required alike. -/
theorem SameValidated.resolve_eq {require require' : TypeName → String → Compile Unit}
    (hrequire : ∀ name, s.isExcluded name = false → require name = require' name) :
    s.resolve c.lookup require = t.resolve c.lookup require' := by
  funext name location
  unfold resolve
  rw [← h.excluded name]
  cases hname : s.isExcluded name with
  | true => rfl
  | false => rw [hrequire name hname]

theorem SameValidated.requireStep_eq {next next' : TypeName → String → Compile Unit}
    (hnext : ∀ name, s.isExcluded name = false → next name = next' name)
    (hname : s.isExcluded name = false) : s.requireStep c next name = t.requireStep c next' name := by
  funext location
  unfold requireStep
  rw [h.lower_eq hname, h.resolve_eq hnext]

/-- The bounds on the depth differ with the number of definitions, which makes no difference. -/
theorem SameValidated.require_eq (hname : s.isExcluded name = false) :
    s.require (m := Compile) c.lookup s.depthLimit name =
      t.require c.lookup t.depthLimit name := by
  have hsteps : ∀ steps name, s.isExcluded name = false →
      (s.requireStep c)^[steps] (fun _ _ => pure ()) name =
        (t.requireStep c)^[steps] (fun _ _ => pure ()) name := by
    intro steps
    induction steps with
    | zero => exact fun _ _ => rfl
    | succ steps ih =>
      intro name hname
      rw [Function.iterate_succ_apply', Function.iterate_succ_apply']
      exact h.requireStep_eq ih hname
  -- more steps than either bound allows make both bounds disappear
  have hmany := hsteps (max s.depthLimit t.depthLimit + 1) name hname
  rwa [requireStep_iterate (by omega), requireStep_iterate (by omega)] at hmany

theorem SameValidated.compileNamed_eq (c : Cache) (name : TypeName) :
    s.compileNamed c name = t.compileNamed c name := by
  have hsame := h.excluded name
  cases hget : c.get? name with
  | some v => rw [compileNamed_cached hget, compileNamed_cached hget]
  | none =>
    cases hname : s.isExcluded name with
    | true =>
      rw [hname] at hsame
      rw [compileNamed_excluded hget hname, compileNamed_excluded hget hsame.symm]
    | false =>
      unfold compileNamed
      rw [← hsame, hname, h.require_eq hname]

theorem SameValidated.compileInline_eq (c : Cache) (d : Definition) (location : String) :
    s.compileInline c d location = t.compileInline c d location := by
  unfold compileInline
  rw [h.resolve_eq fun _ => h.require_eq]

theorem SameValidated.compileTarget_eq (c : Cache) (target : Target) (location : String) :
    s.compileTarget c target location = t.compileTarget c target location := by
  cases target with
  | named name => exact h.compileNamed_eq c name
  | inline d => exact h.compileInline_eq c d location

theorem SameValidated.knows_iff (hname : s.isExcluded name = false) : s.Knows name ↔ t.Knows name := by
  have hdefined : ∀ s : Store, name ∈ s.document.names ↔ (s.definition? name).isSome = true :=
    fun _ => Table.mem_keys_iff
  have hdeclared : ∀ s : Store, name ∈ s.fields.names ↔ (s.fields? name).isSome = true :=
    fun _ => Table.mem_keys_iff
  unfold Knows
  rw [hdefined, hdefined, hdeclared, hdeclared, h.definition name hname, h.fields name hname]

end

end Store

namespace Session

variable {s t : Store} {x y : Session} {calls : List Call}

theorem validatedNames_eq (h : s.SameValidated t) : validatedNames s = validatedNames t := by
  have hordered : ∀ s : Store, (validatedNames s).Pairwise (· < ·) := by
    intro s
    exact (Store.foldl_insert_ordered _ [] List.Pairwise.nil).filter _
  refine List.Perm.eq_of_pairwise ?_ (hordered s) (hordered t) ?_
  · intro a b _ _ hab hba
    exact absurd hba (asymm hab)
  · rw [List.perm_ext_iff_of_nodup (validatedNames_nodup s) (validatedNames_nodup t)]
    intro name
    rw [mem_validatedNames_iff, mem_validatedNames_iff, ← h.excluded name]
    constructor
    · exact fun ⟨hknown, hname⟩ => ⟨(h.knows_iff hname).mp hknown, hname⟩
    · exact fun ⟨hknown, hname⟩ => ⟨(h.knows_iff hname).mpr hknown, hname⟩

theorem warmUpTargets_eq (h : s.SameValidated t) : warmUpTargets s = warmUpTargets t := by
  unfold warmUpTargets
  rw [validatedNames_eq h, h.operations]

/-- The sessions have stores that say the same of validated types, and have compiled the same. -/
structure Twins (x y : Session) : Prop where
  store : x.store.SameValidated y.store
  cache : x.cache = y.cache

/-- Answers that are the same, and sessions that go on as twins. -/
structure TwinRuns {α : Type} (run run' : α × Session) : Prop where
  answer : run.1 = run'.1
  twins : Twins run.2 run'.2

section

variable (h : Twins x y)

include h

theorem validatorFor_twins (target : Target) (location : String) :
    TwinRuns (x.validatorFor target location) (y.validatorFor target location) := by
  unfold validatorFor
  rw [← h.cache, ← h.store.compileTarget_eq]
  cases x.store.compileTarget x.cache target location with
  | error e => exact ⟨rfl, h⟩
  | ok last => exact ⟨rfl, h.store, rfl⟩

theorem compiled_twins (name : TypeName) : TwinRuns (x.compiled name) (y.compiled name) :=
  validatorFor_twins h (.named name) name.text

theorem validate_twins (value : Json) (target : Target) (channel : Channel) :
    TwinRuns (x.validate value target channel) (y.validate value target channel) := by
  have hfor := validatorFor_twins h target (locationOf channel)
  unfold validate
  cases hx : x.validatorFor target (locationOf channel) with
  | mk answer x' =>
    cases hy : y.validatorFor target (locationOf channel) with
    | mk answer' y' =>
      rw [hx, hy] at hfor
      obtain ⟨rfl, htwins⟩ := hfor
      cases answer with
      | error e => exact ⟨rfl, htwins⟩
      | ok v =>
        refine ⟨?_, htwins⟩
        exact congrArg (fun c => Verdict.ofOutcome channel target.label
          (c.outcome? v channel.stringEncoded value)) htwins.cache

theorem compileAll_twins (targets : List (String × Target)) :
    TwinRuns (x.compileAll targets) (y.compileAll targets) := by
  induction targets generalizing x y with
  | nil => exact ⟨rfl, h⟩
  | cons entry rest ih =>
    obtain ⟨location, target⟩ := entry
    have hfor := validatorFor_twins h target location
    rw [compileAll, compileAll]
    cases hx : x.validatorFor target location with
    | mk answer x' =>
      cases hy : y.validatorFor target location with
      | mk answer' y' =>
        rw [hx, hy] at hfor
        obtain ⟨rfl, htwins⟩ := hfor
        cases answer with
        | error e => exact ⟨rfl, htwins⟩
        | ok v => exact ih htwins

theorem warmUp_twins : TwinRuns x.warmUp y.warmUp where
  answer := by
    rw [warmUp_fst, warmUp_fst, ← warmUpTargets_eq h.store, ← validatedNames_eq h.store,
      (compileAll_twins h _).answer]
  twins := by
    have hx : x.warmUp.2 = (x.compileAll (warmUpTargets x.store)).2 := perform_eq x .warmUp
    have hy : y.warmUp.2 = (y.compileAll (warmUpTargets y.store)).2 := perform_eq y .warmUp
    rw [hx, hy, ← warmUpTargets_eq h.store]
    exact (compileAll_twins h _).twins

theorem perform_twins (call : Call) : Twins (x.perform call) (y.perform call) := by
  cases call with
  | compiled name => exact (compiled_twins h name).twins
  | validate value target channel => exact (validate_twins h value target channel).twins
  | warmUp => exact (warmUp_twins h).twins

theorem foldl_perform_twins (calls : List Call) :
    Twins (calls.foldl perform x) (calls.foldl perform y) := by
  induction calls generalizing x y with
  | nil => exact h
  | cons call rest ih => exact ih (perform_twins h call)

end

/-- An unvalidated type stands for a validator that takes anything. -/
theorem validatorFor_excluded {name : TypeName} (hx : Coherent x.store x.cache)
    (hname : x.store.isExcluded name = true) (location : String) :
    (x.validatorFor (.named name) location).1 = .ok (Store.acceptAll name) := by
  rw [validatorFor_fst]
  change (x.store.compileNamed x.cache name).map Prod.fst = _
  cases hget : x.cache.get? name with
  | some v => rw [Store.compileNamed_cached hget, hx.excluded hget hname]; rfl
  | none => rw [Store.compileNamed_excluded hget hname]; rfl

/-- The verdict on a value that is validated against an unvalidated type. -/
def excludedVerdict (name : TypeName) (value : Json) (channel : Channel) : Verdict :=
  if channel.stringEncoded = true ∧ value = .str "undefined" then
    .rejected ⟨channel, name.text, [Issue.mismatch FieldPath.root .required name.text none]⟩
  else .accepted value

theorem ofOutcome_acceptAll (c : Cache) (name : TypeName) (value : Json) (channel : Channel) :
    Verdict.ofOutcome channel name.text
      (c.outcome? (Store.acceptAll name) channel.stringEncoded value) =
        excludedVerdict name value channel := by
  unfold excludedVerdict
  by_cases hnull : value = .null
  · subst hnull
    have hthere : ¬ (channel.stringEncoded = true ∧ Json.null = .str "undefined") :=
      fun h => by cases h.2
    rw [outcome_null _ _ _ rfl, if_neg hthere]
    rfl
  · by_cases hcounts : value.Counts channel.stringEncoded
    · have hthere := mt (Json.not_counts_iff hnull).mpr (not_not.mpr hcounts)
      unfold outcome? Store.acceptAll
      rw [Validator.apply_of_counts hcounts, if_neg hthere]
      rfl
    · unfold outcome?
      rw [Validator.apply_of_not_counts rfl hnull hcounts,
        if_pos ((Json.not_counts_iff hnull).mp hcounts)]
      rfl

theorem validate_excluded {name : TypeName} (hx : Coherent x.store x.cache)
    (hname : x.store.isExcluded name = true) (value : Json) (channel : Channel) :
    (x.validate value (.named name) channel).1 = excludedVerdict name value channel := by
  have hfor := validatorFor_excluded hx hname (locationOf channel)
  unfold validate
  cases hrun : x.validatorFor (.named name) (locationOf channel) with
  | mk answer x' =>
    rw [hrun] at hfor
    cases hfor
    exact ofOutcome_acceptAll x'.cache name value channel

/--
Stores that say the same of validated types are not told apart by any run of calls, nor by any call
after it. An unvalidated type takes every value as it is, the missing one aside.
-/
theorem excluded_unobserved (h : s.SameValidated t) (calls : List Call) :
    let one := after s calls
    let other := after t calls
    one.cache = other.cache ∧
    (∀ name, (one.compiled name).1 = (other.compiled name).1) ∧
    (∀ value target channel,
      (one.validate value target channel).1 = (other.validate value target channel).1) ∧
    one.warmUp.1 = other.warmUp.1 ∧
    ∀ name, s.isExcluded name = true → ∀ value channel,
      (one.validate value (.named name) channel).1 = excludedVerdict name value channel := by
  intro one other
  have hnew : Twins (ofStore s) (ofStore t) := ⟨h, rfl⟩
  have htwins : Twins one other := foldl_perform_twins hnew calls
  refine ⟨htwins.cache, fun name => (compiled_twins htwins name).answer,
    fun value target channel => (validate_twins htwins value target channel).answer,
    (warmUp_twins htwins).answer, fun name hname value channel => ?_⟩
  have hstore : one.store = s := after_store s calls
  refine validate_excluded ?_ ?_ value channel
  · rw [hstore]
    exact after_coherent s calls
  · rw [hstore]
    exact hname

/-- The store that leaves the text unvalidated, without its definition. -/
def erasedStore : Store where
  document := { openStore.document with
    definitions := Table.erase maybeName openStore.document.definitions }
  fields := openStore.fields
  exclusions := openStore.exclusions

/-- A warm-up and a check behind the alias do not show whether the text is defined. -/
theorem erased_unobserved : openStore.SameValidated erasedStore ∧
    ((after openStore [.warmUp]).validate (.obj [("m", .bool true)]) (.named holderName) .body).1 =
      ((after erasedStore [.warmUp]).validate
        (.obj [("m", .bool true)]) (.named holderName) .body).1 ∧
    ((after openStore [.warmUp]).validate (.bool true) (.named maybeName) .query).1 =
      .accepted (.bool true) := by
  have hexcluded : openStore.isExcluded maybeName = true := by decide
  have hsame : openStore.SameValidated erasedStore := by
    refine ⟨fun _ => rfl, rfl, fun name hname => ?_, fun _ _ => rfl⟩
    have hother : name ≠ maybeName := by
      rintro rfl
      rw [hexcluded] at hname
      cases hname
    exact (Table.get?_erase_of_ne hother).symm
  obtain ⟨-, -, hvalidate, -, haccepts⟩ := excluded_unobserved hsame [.warmUp]
  refine ⟨hsame, hvalidate _ _ _, (haccepts maybeName hexcluded (.bool true) .query).trans ?_⟩
  exact if_neg fun hmissing => by cases hmissing.2

end Session

end Conform
