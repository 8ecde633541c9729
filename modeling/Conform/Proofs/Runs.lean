import Conform.Proofs.Depth
import Conform.Proofs.Exactness
import Conform.Proofs.Hops

/-!
# Runs of a session

Whatever is asked of a session, in any order and with any failures in between,
its cache stays coherent and only grows. Clones of a session share its store
and its cache, so the calls on all of them are one run.
-/

namespace Conform

open Cache

namespace Store

variable {s : Store} {c c' : Cache} {node : Node} {d : Definition} {location : String}
  {target : Target} {v : Validator}

/-- The types that a node needs compiled. -/
def Needs (s : Store) (node : Node) (name : TypeName) : Prop :=
  ∃ start ∈ node.references, s.isExcluded start = false ∧ s.Reaches start name

/-- How the pass over a node alone ends. -/
theorem compile_ends_needed (s : Store) (c : Cache) (node : Node) (location : String) :
    Ends s c (s.Needs node) []
      (StateT.run (node.compile (m := Compile)
        (s.resolve c.lookup (s.require c.lookup s.depthLimit)) true location) [])
      (StateT.run (node.compile (s.ideal (c.inherited · s)) true location) []) := by
  have hclosed : ∀ name other, s.Needs node name → s.Edge name other → s.Needs node other := by
    rintro name other ⟨start, hstart, hvalidated, hreach⟩ hedge
    exact ⟨start, hstart, hvalidated, hreach.tail hedge⟩
  refine compile_ends true location ?_ (Pass.empty s c) card_undiscovered_le
  intro name hname location pending hpass hdepth hvalidated
  exact require_provides hclosed s.depthLimit name location pending ⟨name, hname, hvalidated, .refl⟩
    hvalidated hpass hdepth

/-- What the validator of a node calls is known to its pass. -/
theorem compile_needed_ok {pending : PendingTable}
    (hrun : StateT.run (node.compile (m := Compile)
      (s.resolve c.lookup (s.require c.lookup s.depthLimit)) true location) [] = .ok (v, pending)) :
    Pass s c pending ∧ Grows s c (s.Needs node) [] pending ∧
      ∀ callee ∈ v.calls, c.knows pending callee = true := by
  have hends := compile_ends_needed s c node location
  rw [hrun] at hends
  cases hideal : StateT.run (node.compile (s.ideal (c.inherited · s)) true location) [] with
  | error e => rw [hideal] at hends; exact hends.elim
  | ok ideal =>
    rw [hideal] at hends
    obtain ⟨heq, hpass, hgrows, hnoted⟩ := hends
    obtain ⟨-, hnames, hcalls, -⟩ := ideal_reads hideal
    refine ⟨hpass, hgrows, fun callee hcallee => hnoted callee ?_⟩
    rw [heq, hcalls, ← hnames] at hcallee
    exact hcallee

/-- A schema object without a name compiles as its node does, and commits what its pass adds. -/
theorem compileInline_eq (s : Store) (c : Cache) (d : Definition) (location : String) :
    s.compileInline c d location = (d.lower .unspecified location).bind fun node =>
      (StateT.run (node.compile (m := Compile)
        (s.resolve c.lookup (s.require c.lookup s.depthLimit)) true location) []).map
          fun last => (last.1, c.commit last.2) := by
  unfold compileInline Compile.run
  cases d.lower .unspecified location with
  | error e => rfl
  | ok node =>
    simp only [bind, Except.bind]
    cases StateT.run (node.compile (m := Compile)
      (s.resolve c.lookup (s.require c.lookup s.depthLimit)) true location) [] <;> rfl

theorem compileInline_ok (h : s.compileInline c d location = .ok (v, c')) :
    Update s c c' ∧ ∀ callee ∈ v.calls, c'.contains callee = true := by
  rw [compileInline_eq] at h
  obtain ⟨node, -, h⟩ := exists_ok_of_bind h
  cases hrun : StateT.run (node.compile (m := Compile)
      (s.resolve c.lookup (s.require c.lookup s.depthLimit)) true location) [] with
  | error e => rw [hrun] at h; cases h
  | ok last =>
    rw [hrun] at h
    cases h
    obtain ⟨hpass, hgrows, hknown⟩ := compile_needed_ok hrun
    refine ⟨.commit hpass hgrows, fun callee hcallee => ?_⟩
    rw [contains_commit hpass hgrows]
    exact hknown callee hcallee

theorem compileTarget_ok (h : s.compileTarget c target location = .ok (v, c')) :
    Update s c c' ∧ (Coherent s c → ∀ callee ∈ v.calls, c'.contains callee = true) := by
  cases target with
  | named name =>
    obtain ⟨hupdate, hget⟩ := compileNamed_ok h
    exact ⟨hupdate, fun hc callee hcallee => (hupdate.coherent hc).calls hget hcallee⟩
  | inline d =>
    obtain ⟨hupdate, hcalls⟩ := compileInline_ok h
    exact ⟨hupdate, fun _ => hcalls⟩

end Store

namespace Session

/-- Something asked of a session. -/
inductive Call where
  | compiled (name : TypeName)
  | validate (value : Json) (target : Target) (channel : Channel)
  | warmUp

/-- The session after a call. -/
def perform (s : Session) : Call → Session
  | .compiled name => (s.compiled name).2
  | .validate v target channel => (s.validate v target channel).2
  | .warmUp => s.warmUp.2

/-- The session on a store after a run of calls. -/
def after (store : Store) (calls : List Call) : Session := calls.foldl perform (ofStore store)

/-- The targets that a call compiles, with the places they are used at. -/
def Call.targets (store : Store) : Call → List (String × Target)
  | .compiled name => [(name.text, .named name)]
  | .validate _ target channel => [(locationOf channel, target)]
  | .warmUp => warmUpTargets store

/-- The validators of targets, up to the first that does not compile. -/
def builtAll (s : Session) : List (String × Target) → List Validator
  | [] => []
  | (location, target) :: rest =>
    match s.validatorFor target location with
    | (.ok v, s) => v :: s.builtAll rest
    | (.error _, _) => []

/-- The validators that a call builds. -/
def built (s : Session) (call : Call) : List Validator := s.builtAll (call.targets s.store)

variable {s t u : Session} {target : Target} {location : String} {v : Validator}

/-- All that a call does to a session is to compile its targets. -/
theorem perform_eq (s : Session) (call : Call) :
    s.perform call = (s.compileAll (call.targets s.store)).2 := by
  cases call with
  | compiled name =>
    change (s.compiled name).2 = (s.compileAll [(name.text, .named name)]).2
    rw [compileAll]
    change (s.validatorFor (.named name) name.text).2 = _
    split
    · next h => rw [h]; rfl
    · next h => rw [h]
  | validate value target channel =>
    change (s.validate value target channel).2 = (s.compileAll [(locationOf channel, target)]).2
    rw [compileAll, validate]
    split
    · next h => rw [h]
    · next h => rw [h]; rfl
  | warmUp =>
    change s.warmUp.2 = (s.compileAll (warmUpTargets s.store)).2
    rw [warmUp]
    split
    · next h => rw [h]
    · next h => rw [h]

/-- The later session has the same store, and a cache that compilations have updated. -/
structure Advances (s t : Session) : Prop where
  store : t.store = s.store
  updates : Updates s.store s.cache t.cache

theorem Advances.refl (s : Session) : s.Advances s := ⟨rfl, .refl⟩

theorem Advances.trans (h : s.Advances t) (hnext : t.Advances u) : s.Advances u := by
  refine ⟨hnext.store.trans h.store, h.updates.trans ?_⟩
  rw [← h.store]
  exact hnext.updates

theorem Advances.coherent (h : s.Advances t) (hs : Coherent s.store s.cache) :
    Coherent t.store t.cache := by
  rw [h.store]
  exact h.updates.coherent hs

theorem validatorFor_advances (s : Session) (target : Target) (location : String) :
    s.Advances (s.validatorFor target location).2 := by
  unfold validatorFor
  cases h : s.store.compileTarget s.cache target location with
  | error e => exact Advances.refl s
  | ok last => exact ⟨rfl, .single (Store.compileTarget_ok h).1⟩

theorem validatorFor_ok (h : s.validatorFor target location = (.ok v, t)) :
    s.store.compileTarget s.cache target location = .ok (v, t.cache) := by
  unfold validatorFor at h
  cases hcompiled : s.store.compileTarget s.cache target location with
  | error e => rw [hcompiled] at h; cases h
  | ok last =>
    rw [hcompiled] at h
    cases h
    rfl

theorem validatorFor_fst (s : Session) (target : Target) (location : String) :
    (s.validatorFor target location).1 =
      (s.store.compileTarget s.cache target location).map Prod.fst := by
  unfold validatorFor
  cases s.store.compileTarget s.cache target location <;> rfl

/-- What the validator of a target calls is cached. -/
theorem validatorFor_calls (hs : Coherent s.store s.cache)
    (h : s.validatorFor target location = (.ok v, t)) :
    ∀ callee ∈ v.calls, t.cache.contains callee = true := by
  unfold validatorFor at h
  cases hcompiled : s.store.compileTarget s.cache target location with
  | error e => rw [hcompiled] at h; cases h
  | ok last =>
    rw [hcompiled] at h
    cases h
    exact (Store.compileTarget_ok hcompiled).2 hs

theorem compileAll_advances (s : Session) (targets : List (String × Target)) :
    s.Advances (s.compileAll targets).2 := by
  induction targets generalizing s with
  | nil => exact Advances.refl s
  | cons entry rest ih =>
    obtain ⟨location, target⟩ := entry
    have hfirst := validatorFor_advances s target location
    rw [compileAll]
    split
    · next v t h =>
      rw [h] at hfirst
      exact hfirst.trans (ih t)
    · next e t h =>
      rw [h] at hfirst
      exact hfirst

theorem builtAll_calls (hs : Coherent s.store s.cache) (targets : List (String × Target)) :
    ∀ v ∈ s.builtAll targets, ∀ callee ∈ v.calls,
      (s.compileAll targets).2.cache.contains callee = true := by
  induction targets generalizing s with
  | nil => exact fun v hv => absurd hv List.not_mem_nil
  | cons entry rest ih =>
    obtain ⟨location, target⟩ := entry
    have hfirst := validatorFor_advances s target location
    rw [builtAll, compileAll]
    cases h : s.validatorFor target location with
    | mk answer t =>
      rw [h] at hfirst
      cases answer with
      | error e => exact fun v hv => absurd hv List.not_mem_nil
      | ok w =>
        intro v hv callee hcallee
        rcases List.mem_cons.mp hv with rfl | hv
        · have hcached := validatorFor_calls hs h callee hcallee
          exact (compileAll_advances t rest).updates.extends.contains hcached
        · exact ih (hfirst.coherent hs) v hv callee hcallee

theorem perform_advances (s : Session) (call : Call) : s.Advances (s.perform call) := by
  rw [perform_eq]
  exact compileAll_advances s _

theorem foldl_perform_advances (s : Session) (calls : List Call) :
    s.Advances (calls.foldl perform s) := by
  induction calls generalizing s with
  | nil => exact Advances.refl s
  | cons call rest ih => exact (perform_advances s call).trans (ih _)

theorem after_advances (store : Store) (calls : List Call) :
    (ofStore store).Advances (after store calls) :=
  foldl_perform_advances (ofStore store) calls

theorem after_store (store : Store) (calls : List Call) : (after store calls).store = store :=
  (after_advances store calls).store

theorem after_coherent (store : Store) (calls : List Call) :
    Coherent store (after store calls).cache :=
  (after_advances store calls).updates.coherent (Coherent.empty store)

/-- After any calls, a validator is what the store compiles, and the cache stays coherent. -/
theorem validatorFor_after {store : Store} {calls : List Call}
    (h : (after store calls).validatorFor target location = (.ok v, t)) :
    store.compileTarget (after store calls).cache target location = .ok (v, t.cache) ∧
      Coherent store t.cache := by
  have hcompiled := validatorFor_ok h
  rw [after_store] at hcompiled
  exact ⟨hcompiled, (Store.compileTarget_ok hcompiled).1.coherent (after_coherent store calls)⟩

/-- What a coherent session reports is not about types that cannot be found. -/
theorem validate_resolved (hs : Coherent s.store s.cache) {value : Json} {channel : Channel}
    {report : Report} (h : (s.validate value target channel).1 = .rejected report) :
    ∀ issue ∈ report.issues, issue.code ≠ .unresolvedType := by
  unfold validate at h
  have hadvances := validatorFor_advances s target (locationOf channel)
  cases hfor : s.validatorFor target (locationOf channel) with
  | mk answer t =>
    rw [hfor] at h hadvances
    cases answer with
    | error e => cases h
    | ok v =>
      have hcalls := validatorFor_calls hs hfor
      cases ho : t.cache.outcome? v channel.stringEncoded value with
      | none => simp only [ho, Verdict.ofOutcome] at h; cases h
      | some o =>
        have hresolved := outcome_resolved
          (fun _ hget _ hcallee => (hadvances.coherent hs).calls hget hcallee) hcalls ho
        simp only [ho, Verdict.ofOutcome] at h
        split at h
        · cases h
        · cases h
          exact hresolved

/-- A name that a validator calls is never missing, and no report says that one is. -/
theorem calls_cached_along_runs (store : Store) (calls : List Call) (call : Call) :
    let before := after store calls
    let now := before.perform call
    (∀ name v, now.cache.get? name = some v →
      ∀ callee ∈ v.calls, now.cache.contains callee = true) ∧
    (∀ v ∈ before.built call, ∀ callee ∈ v.calls, now.cache.contains callee = true) ∧
    (∀ (more : List Call) name v, now.cache.get? name = some v →
      (more.foldl perform now).cache.get? name = some v) ∧
    (∀ value target channel report, (before.validate value target channel).1 = .rejected report →
      ∀ issue ∈ report.issues, issue.code ≠ .unresolvedType) := by
  intro before now
  have hbefore : Coherent before.store before.cache :=
    (after_advances store calls).coherent (Coherent.empty store)
  have hnow : Coherent now.store now.cache := (perform_advances before call).coherent hbefore
  refine ⟨fun name v hget callee hcallee => hnow.calls hget hcallee, fun v hv => ?_,
    fun more => (foldl_perform_advances now more).updates.extends, ?_⟩
  · have hbuilt := builtAll_calls hbefore (call.targets before.store) v hv
    rw [← perform_eq] at hbuilt
    exact hbuilt
  · intro value target channel report hreport
    exact validate_resolved hbefore hreport

/-- The name of a nullable text. -/
def maybeName : TypeName := ⟨"Maybe", by decide⟩

/-- Another name for it. -/
def aliasName : TypeName := ⟨"Alias", by decide⟩

/-- The name of an object with a field `m` of that other name. -/
def holderName : TypeName := ⟨"Holder", by decide⟩

/-- A definition with keywords alone. -/
def plainDefinition (keywords : Keywords) : Definition := { keywords }

def holderDefinition : Definition where
  keywords := { kinds := some (.one "object"), required := some (.names ["m"]) }
  properties := some [("m", plainDefinition { reference := some aliasName.toReference })]

/-- A store with the three types. -/
def aliasStore : Store where
  document :=
    { definitions :=
        [(aliasName, plainDefinition { reference := some maybeName.toReference }),
          (holderName, holderDefinition),
          (maybeName, plainDefinition { kinds := some (.one "string"), nullable := some true })],
      operations := Operations.empty }
  fields := FieldTable.empty
  exclusions := Exclusions.empty

/-- Compiling a validated type, after any run: when it succeeds, what it adds, and that it ends. -/
theorem compiled_exactly_along_runs (store : Store) (calls : List Call) (name : TypeName)
    (hvalidated : store.isExcluded name = false) :
    let before := after store calls
    let now := (before.compiled name).2
    ((∃ v, (before.compiled name).1 = .ok v) ↔ store.Compilable name) ∧
    (∀ v, (before.compiled name).1 = .ok v → before.cache.Extends now.cache ∧
      ∀ other, now.cache.contains other = true ↔
        before.cache.contains other = true ∨ store.Reaches name other) ∧
    (∀ e, (before.compiled name).1 = .error e → now = before) ∧
    (∀ steps bottom, store.depthLimit < steps → (store.requireStep before.cache)^[steps] bottom =
      store.require before.cache.lookup store.depthLimit) := by
  intro before now
  have hbefore : Coherent store before.cache := after_coherent store calls
  have hstore : before.store = store := after_store store calls
  have hcompiled : before.compiled name = before.keep (store.compileNamed before.cache name) := by
    rw [← hstore]
    rfl
  have hsucceeds := Store.compileNamed_succeeds_iff hbefore hvalidated
  refine ⟨?_, fun v hv => ?_, fun e he => ?_, fun steps bottom hsteps =>
    Store.requireStep_iterate hsteps bottom⟩
  · rw [← hsucceeds, hcompiled]
    constructor
    · rintro ⟨v, hv⟩
      cases h : store.compileNamed before.cache name with
      | error e => rw [h] at hv; cases hv
      | ok last => exact ⟨last.1, last.2, rfl⟩
    · rintro ⟨v, c', h⟩
      exact ⟨v, by rw [h]; rfl⟩
  · cases h : store.compileNamed before.cache name with
    | error e => rw [hcompiled, h] at hv; cases hv
    | ok last =>
      have hnow : now.cache = last.2 := by
        change (before.compiled name).2.cache = _
        rw [hcompiled, h]
        rfl
      rw [hnow]
      exact ⟨(Store.compileNamed_ok h).1.extends,
        Store.compileNamed_contains_iff hbefore hvalidated h⟩
  · change (before.compiled name).2 = before
    cases h : store.compileNamed before.cache name with
    | ok last => rw [hcompiled, h] at he; cases he
    | error e' => rw [hcompiled, h]; rfl

/-- Compiling the alias caches just the two types. -/
theorem compiled_alias_caches : aliasStore.isExcluded aliasName = false ∧
    ∀ other, ((after aliasStore []).compiled aliasName).2.cache.contains other = true ↔
      aliasStore.Reaches aliasName other := by
  have hvalidated : aliasStore.isExcluded aliasName = false := by decide
  obtain ⟨-, hadds, -, -⟩ := compiled_exactly_along_runs aliasStore [] aliasName hvalidated
  have hok : ((after aliasStore []).compiled aliasName).1.toBool = true := by decide +kernel
  refine ⟨hvalidated, fun other => ?_⟩
  cases h : ((after aliasStore []).compiled aliasName).1 with
  | error e => rw [h] at hok; cases hok
  | ok v =>
    refine ((hadds v h).2 other).trans ⟨fun hor => hor.resolve_left fun hnone => ?_, Or.inr⟩
    cases hnone

end Session

end Conform
