import Conform.Proofs.Lowered
import Conform.Proofs.Runs

/-!
# Warming up

Whether a target compiles depends on the store alone, not on the cache nor on
the place it is used at. So a warm-up that succeeds has settled every target
it went through, for good: what it compiled is all that there is to compile.
-/

namespace Conform

open Cache

namespace Store

variable {s : Store} {c : Cache} {name : TypeName} {d : Definition} {location : String}

/-- The target compiles, whatever is cached and wherever it is used. -/
def CanCompile (s : Store) : Target → Prop
  | .named name => s.isExcluded name = true ∨ s.Compilable name
  | .inline d => ∃ node, (∀ location, d.lower .unspecified location = .ok node) ∧
      node.PatternsRead ∧ ∀ name, s.Needs node name → s.IsSound name

/-- The pass over a node alone succeeds where its patterns can be read and all it needs is sound. -/
theorem compile_needed_succeeds_iff (hc : Coherent s c) (node : Node) (location : String) :
    (∃ last, StateT.run (node.compile (m := Compile)
        (s.resolve c.lookup (s.require c.lookup s.depthLimit)) true location) [] = .ok last) ↔
      node.PatternsRead ∧ ∀ name, s.Needs node name → s.IsSound name := by
  have hends := compile_ends_needed s c node location
  constructor
  · rintro ⟨⟨v, pending⟩, hrun⟩
    obtain ⟨hpass, hgrows, hcalls⟩ := compile_needed_ok hrun
    rw [hrun] at hends
    cases hideal : StateT.run (node.compile (s.ideal (c.inherited · s)) true location) [] with
    | error e => rw [hideal] at hends; exact hends.elim
    | ok ideal =>
      rw [hideal] at hends
      obtain ⟨rfl, -⟩ := hends
      obtain ⟨hread, -, hnames, -⟩ := ideal_reads hideal
      refine ⟨hread, ?_⟩
      rintro other ⟨start, hstart, hvalidated, hreach⟩
      have hcalled : start ∈ ideal.1.calls := by
        rw [hnames]
        exact List.mem_filter.mpr ⟨hstart, by rw [hvalidated]; rfl⟩
      have hcached : (c.commit pending).contains start = true := by
        rw [contains_commit hpass hgrows]
        exact hcalls start hcalled
      exact (hc.commit hpass hgrows).compilable hvalidated hcached other hreach
  · rintro ⟨hread, hsound⟩
    obtain ⟨ideal, -, hideal⟩ :=
      (node.ideal_notes s (c.inherited · s) true location).succeeds hread
    rw [hideal []] at hends
    cases hrun : StateT.run (node.compile (m := Compile)
        (s.resolve c.lookup (s.require c.lookup s.depthLimit)) true location) [] with
    | ok last => exact ⟨last, rfl⟩
    | error e =>
      rw [hrun] at hends
      obtain ⟨other, hneeded, hbroken⟩ := hends
      exact absurd (hsound other hneeded) hbroken

theorem compileInline_succeeds_iff (hc : Coherent s c) :
    (∃ v c', s.compileInline c d location = .ok (v, c')) ↔ s.CanCompile (.inline d) := by
  rw [compileInline_eq]
  constructor
  · rintro ⟨v, c', h⟩
    obtain ⟨node, hlower, h⟩ := exists_ok_of_bind h
    refine ⟨node, Definition.lower_ok_at hlower, ?_⟩
    rw [← compile_needed_succeeds_iff hc node location]
    cases hrun : StateT.run (node.compile (m := Compile)
        (s.resolve c.lookup (s.require c.lookup s.depthLimit)) true location) [] with
    | ok last => exact ⟨last, rfl⟩
    | error e => rw [hrun] at h; cases h
  · rintro ⟨node, hlower, hneeded⟩
    obtain ⟨last, hrun⟩ := (compile_needed_succeeds_iff hc node location).mpr hneeded
    refine ⟨last.1, c.commit last.2, ?_⟩
    rw [hlower location, Except.bind, hrun]
    rfl

theorem compileTarget_succeeds_iff (hc : Coherent s c) (target : Target) (location : String) :
    (∃ v c', s.compileTarget c target location = .ok (v, c')) ↔ s.CanCompile target := by
  cases target with
  | inline d => exact compileInline_succeeds_iff hc
  | named name =>
    change (∃ v c', s.compileNamed c name = .ok (v, c')) ↔ _
    cases hexcluded : s.isExcluded name with
    | false =>
      rw [compileNamed_succeeds_iff hc hexcluded]
      simp [CanCompile, hexcluded]
    | true =>
      refine ⟨fun _ => Or.inl hexcluded, fun _ => ?_⟩
      cases hget : c.get? name with
      | some v => exact ⟨v, c, compileNamed_cached hget⟩
      | none => exact ⟨_, _, compileNamed_excluded hget hexcluded⟩

/-- A type that the document or the field table has an entry for. -/
def Knows (s : Store) (name : TypeName) : Prop := name ∈ s.document.names ∨ name ∈ s.fields.names

theorem foldl_insert_ordered (names : List TypeName) (table : List (TypeName × Unit))
    (h : Table.Ordered table) :
    Table.Ordered (names.foldl (fun t n => Table.insert n () t) table) := by
  induction names generalizing table with
  | nil => exact h
  | cons name rest ih => exact ih _ (h.insert name ())

theorem mem_foldl_insert_iff (names : List TypeName) {table : List (TypeName × Unit)} :
    name ∈ Table.keys (names.foldl (fun t n => Table.insert n () t) table) ↔
      name ∈ names ∨ name ∈ Table.keys table := by
  induction names generalizing table with
  | nil => simp
  | cons other rest ih => rw [List.foldl_cons, ih, Table.keys_insert, List.mem_cons]; tauto

theorem mem_names_iff : name ∈ s.names ↔ s.Knows name := by
  unfold names Knows
  rw [mem_foldl_insert_iff, List.mem_append]
  simp [Table.keys]

theorem names_nodup (s : Store) : s.names.Nodup := by
  have hordered := foldl_insert_ordered (s.document.names ++ s.fields.names) [] List.Pairwise.nil
  exact hordered.nodup

/-- A sound type is one that the store knows. -/
theorem IsSound.knows (h : s.IsSound name) : s.Knows name := by
  obtain ⟨node, hlowers, -⟩ := h
  obtain ⟨d, hd⟩ := hlowers.definition
  exact Or.inl (Table.mem_keys_iff.mpr (Table.contains_iff.mpr ⟨d, hd⟩))

/-- A target whose use no warm-up should leave to chance. -/
inductive Serves (s : Store) : Target → Prop
  | known {name : TypeName} : s.Knows name → s.Serves (.named name)
  | excluded {name : TypeName} : s.isExcluded name = true → s.Serves (.named name)
  | listed {label : String} {target : Target} :
      (label, target) ∈ s.document.operations.targets → s.Serves target
  | response {method template : String} {status : Nat} {target : Target} :
      s.document.operations.responseTarget? method template status = some target → s.Serves target

end Store

namespace Operations

variable {ops : Operations} {method template : String} {status : Nat} {target : Target}

/-- What a response is validated against is listed among the targets. -/
theorem responseTarget?_listed (h : ops.responseTarget? method template status = some target) :
    ∃ label, (label, target) ∈ ops.targets := by
  unfold responseTarget? at h
  obtain ⟨operation, hfind, h⟩ := Option.bind_eq_some_iff.mp h
  have hdeclared : ∃ key, Table.get? key operation.responses = some target := by
    rcases Option.or_eq_some_iff.mp h with h | ⟨-, h⟩
    · exact ⟨_, h⟩
    · rcases Option.or_eq_some_iff.mp h with h | ⟨-, h⟩
      · exact ⟨_, h⟩
      · exact ⟨_, h⟩
  obtain ⟨key, hkey⟩ := hdeclared
  refine ⟨OperationKey.label ⟨Text.lowerAscii method, template⟩ ++ " " ++ key, ?_⟩
  refine List.mem_flatMap.mpr ⟨_, Table.mem_of_get? hfind, List.mem_append_right _ ?_⟩
  exact List.mem_map.mpr ⟨_, Table.mem_of_get? hkey, rfl⟩

end Operations

namespace Session

variable {s t : Session} {target : Target} {location : String} {name : TypeName}

theorem validatorFor_succeeds_iff (hs : Coherent s.store s.cache) (target : Target)
    (location : String) :
    (∃ v, (s.validatorFor target location).1 = .ok v) ↔ s.store.CanCompile target := by
  rw [← Store.compileTarget_succeeds_iff hs target location, validatorFor_fst]
  cases s.store.compileTarget s.cache target location with
  | error e => simp [Except.map]
  | ok last => exact ⟨fun _ => ⟨last.1, last.2, rfl⟩, fun _ => ⟨last.1, rfl⟩⟩

theorem validatorFor_fails_iff (hs : Coherent s.store s.cache) (target : Target)
    (location : String) :
    (∃ e, (s.validatorFor target location).1 = .error e) ↔ ¬ s.store.CanCompile target := by
  rw [← validatorFor_succeeds_iff hs target location]
  cases (s.validatorFor target location).1 <;> simp

/-- Compiling one target after the other succeeds where each of them compiles. -/
theorem compileAll_succeeds_iff (hs : Coherent s.store s.cache) (targets : List (String × Target)) :
    (s.compileAll targets).1 = .ok () ↔ ∀ entry ∈ targets, s.store.CanCompile entry.2 := by
  induction targets generalizing s with
  | nil => simp [compileAll]
  | cons entry rest ih =>
    obtain ⟨location, target⟩ := entry
    have hadvances := validatorFor_advances s target location
    have hfirst := validatorFor_succeeds_iff hs target location
    rw [List.forall_mem_cons, ← hfirst, compileAll]
    cases h : s.validatorFor target location with
    | mk answer t =>
      rw [h] at hadvances
      cases answer with
      | error e => simp
      | ok v =>
        have hrest := ih (hadvances.coherent hs)
        rw [hadvances.store] at hrest
        simpa using hrest

/-- A name that was compiled on the way is cached at the end. -/
theorem compileAll_contains {targets : List (String × Target)} (h : (s.compileAll targets).1 = .ok ())
    (hmem : (location, .named name) ∈ targets) :
    (s.compileAll targets).2.cache.contains name = true := by
  induction targets generalizing s with
  | nil => cases hmem
  | cons entry rest ih =>
    obtain ⟨first, target⟩ := entry
    rw [compileAll] at h ⊢
    cases hfor : s.validatorFor target first with
    | mk answer t =>
      rw [hfor] at h
      cases answer with
      | error e => cases h
      | ok v =>
        rcases List.mem_cons.mp hmem with heq | hmem
        · cases heq
          obtain ⟨-, hget⟩ := Store.compileNamed_ok (validatorFor_ok hfor)
          exact (compileAll_advances t rest).updates.extends.contains (contains_iff.mpr ⟨v, hget⟩)
        · exact ih h hmem

/-- A cache with nothing but sound types: what it has of the validated ones, the store knows. -/
theorem knows_of_contains (hs : Coherent s.store s.cache) (hname : s.store.isExcluded name = false)
    (hcached : s.cache.contains name = true) : s.store.Knows name :=
  (hs.compilable hname hcached).isSound.knows

theorem mem_validatedNames_iff {store : Store} :
    name ∈ validatedNames store ↔ store.Knows name ∧ store.isExcluded name = false := by
  rw [validatedNames, List.mem_filter, Store.mem_names_iff, Bool.not_eq_true']

theorem validatedNames_nodup (store : Store) : (validatedNames store).Nodup :=
  store.names_nodup.filter _

theorem mem_warmUpTargets_of_validated {store : Store} (hname : name ∈ validatedNames store) :
    (name.text, .named name) ∈ warmUpTargets store :=
  List.mem_append_left _ (List.mem_map.mpr ⟨name, hname, rfl⟩)

/-- Every target that is served has been compiled by a warm-up, or is left unvalidated. -/
theorem canCompile_of_serves {store : Store}
    (hall : ∀ entry ∈ warmUpTargets store, store.CanCompile entry.2) (h : store.Serves target) :
    store.CanCompile target := by
  have hlisted : ∀ {label target}, (label, target) ∈ store.document.operations.targets →
      store.CanCompile target := fun hmem => hall _ (List.mem_append_right _ hmem)
  cases h with
  | @known name hknown =>
    cases hexcluded : store.isExcluded name with
    | true => exact Or.inl hexcluded
    | false =>
      exact hall _ (mem_warmUpTargets_of_validated (mem_validatedNames_iff.mpr ⟨hknown, hexcluded⟩))
  | excluded hexcluded => exact Or.inl hexcluded
  | listed hmem => exact hlisted hmem
  | response hresponse =>
    obtain ⟨label, hmem⟩ := Operations.responseTarget?_listed hresponse
    exact hlisted hmem

theorem warmUp_fst (s : Session) :
    s.warmUp.1 = (s.compileAll (warmUpTargets s.store)).1.map
      fun _ => (validatedNames s.store).length := by
  have hstore := (compileAll_advances s (warmUpTargets s.store)).store
  unfold warmUp
  split
  · next h =>
    rw [h] at hstore ⊢
    exact congrArg (fun store => Except.ok (validatedNames store).length) hstore
  · next h => rw [h]; rfl

theorem warmUp_succeeds_iff (hs : Coherent s.store s.cache) {count : Nat} :
    s.warmUp.1 = .ok count ↔ (∀ entry ∈ warmUpTargets s.store, s.store.CanCompile entry.2) ∧
      count = (validatedNames s.store).length := by
  rw [← compileAll_succeeds_iff hs, warmUp_fst]
  cases (s.compileAll (warmUpTargets s.store)).1 with
  | error e => simp [Except.map]
  | ok u => simp [Except.map, eq_comm]

/-- A warm-up fails where a validated type or a listed target does not compile on its own. -/
theorem warmUp_fails_iff (hs : Coherent s.store s.cache) :
    (∃ e, s.warmUp.1 = .error e) ↔
      (∃ name e, s.store.Knows name ∧ s.store.isExcluded name = false ∧
        (s.compiled name).1 = .error e) ∨
      ∃ label target e, (label, target) ∈ s.store.document.operations.targets ∧
        (s.validatorFor target label).1 = .error e := by
  have hfails : (∃ e, s.warmUp.1 = .error e) ↔
      ¬ ∀ entry ∈ warmUpTargets s.store, s.store.CanCompile entry.2 := by
    rw [← compileAll_succeeds_iff hs, warmUp_fst]
    cases (s.compileAll (warmUpTargets s.store)).1 <;> simp [Except.map]
  rw [hfails]
  constructor
  · intro hnot
    push Not at hnot
    obtain ⟨⟨label, target⟩, hmem, hbad⟩ := hnot
    obtain ⟨e, he⟩ := (validatorFor_fails_iff hs _ label).mpr hbad
    rcases List.mem_append.mp hmem with hname | hlisted
    · obtain ⟨name, hvalidated, heq⟩ := List.mem_map.mp hname
      cases heq
      obtain ⟨hknown, hvalidated⟩ := mem_validatedNames_iff.mp hvalidated
      exact Or.inl ⟨name, e, hknown, hvalidated, he⟩
    · exact Or.inr ⟨label, target, e, hlisted, he⟩
  · rintro (⟨name, e, hknown, hvalidated, he⟩ | ⟨label, target, e, hlisted, he⟩) hall
    · have hmem := mem_warmUpTargets_of_validated
        (mem_validatedNames_iff.mpr ⟨hknown, hvalidated⟩)
      have he : (s.validatorFor (.named name) name.text).1 = .error e := he
      exact (validatorFor_fails_iff hs _ _).mp ⟨e, he⟩ (hall _ hmem)
    · have hmem : (label, target) ∈ warmUpTargets s.store := List.mem_append_right _ hlisted
      exact (validatorFor_fails_iff hs _ _).mp ⟨e, he⟩ (hall _ hmem)

/-- After a warm-up every validated type that the store knows is cached. -/
theorem warmUp_contains {count : Nat} (h : s.warmUp.1 = .ok count)
    (hname : name ∈ validatedNames s.store) : s.warmUp.2.cache.contains name = true := by
  have hall : (s.compileAll (warmUpTargets s.store)).1 = .ok () := by
    rw [warmUp_fst] at h
    cases hrun : (s.compileAll (warmUpTargets s.store)).1 with
    | error e => rw [hrun] at h; cases h
    | ok u => rfl
  have hcached := compileAll_contains hall (mem_warmUpTargets_of_validated hname)
  have hwarm : s.warmUp.2 = (s.compileAll (warmUpTargets s.store)).2 := perform_eq s .warmUp
  rw [hwarm]
  exact hcached

/-- A session that has every validated type never gets another one. -/
theorem Advances.get?_eq (h : s.Advances t) (hs : Coherent s.store s.cache)
    (hfull : ∀ name, name ∈ validatedNames s.store → s.cache.contains name = true)
    (hname : s.store.isExcluded name = false) : t.cache.get? name = s.cache.get? name := by
  cases hget : s.cache.get? name with
  | some v => exact h.updates.extends name v hget
  | none =>
    refine Option.eq_none_iff_forall_ne_some.mpr fun v hv => ?_
    have ht := h.coherent hs
    have hvalidated : t.store.isExcluded name = false := by rw [h.store]; exact hname
    have hknown := knows_of_contains ht hvalidated (contains_iff.mpr ⟨v, hv⟩)
    rw [h.store] at hknown
    obtain ⟨w, hw⟩ := contains_iff.mp (hfull name (mem_validatedNames_iff.mpr ⟨hknown, hname⟩))
    rw [hget] at hw
    cases hw

theorem validate_advances (s : Session) (value : Json) (target : Target) (channel : Channel) :
    s.Advances (s.validate value target channel).2 :=
  perform_advances s (.validate value target channel)

/-- A target that compiles is answered by checking the value. -/
theorem validate_compiled (hs : Coherent s.store s.cache) (h : s.store.CanCompile target)
    (value : Json) (channel : Channel) (e : CompileError) :
    (s.validate value target channel).1 ≠ .uncompiled e := by
  obtain ⟨v, hv⟩ := (validatorFor_succeeds_iff hs _ (locationOf channel)).mpr h
  unfold validate
  cases hfor : s.validatorFor target (locationOf channel) with
  | mk answer t =>
    rw [hfor] at hv
    cases hv
    dsimp only
    unfold Verdict.ofOutcome
    split
    · simp
    · split <;> simp

/--
What a warm-up that succeeds counts and caches, that it leaves nothing to be compiled by any
target that is served, and the types and targets that it fails for.
-/
theorem warmUp_completes (store : Store) :
    let cold := ofStore store
    let warm := cold.warmUp.2
    (∀ count, cold.warmUp.1 = .ok count →
      (∃ known : Finset TypeName,
        (∀ name, name ∈ known ↔ store.Knows name ∧ store.isExcluded name = false) ∧
        count = known.card ∧
        ∀ name, store.isExcluded name = false →
          (warm.cache.contains name = true ↔ name ∈ known)) ∧
      ∀ (later : List Call) value target channel, store.Serves target →
        let answer := (later.foldl perform warm).validate value target channel
        (∀ e, answer.1 ≠ .uncompiled e) ∧
        ∀ name, store.isExcluded name = false →
          answer.2.cache.get? name = warm.cache.get? name) ∧
    ((∃ e, cold.warmUp.1 = .error e) ↔
      (∃ name e, store.Knows name ∧ store.isExcluded name = false ∧
        (cold.compiled name).1 = .error e) ∨
      ∃ label target e, (label, target) ∈ store.document.operations.targets ∧
        (cold.validatorFor target label).1 = .error e) := by
  intro cold warm
  have hcold : Coherent cold.store cold.cache := Coherent.empty store
  have hwarming : cold.Advances warm := perform_advances cold .warmUp
  have hwarm : Coherent warm.store warm.cache := hwarming.coherent hcold
  refine ⟨fun count hcount => ?_, ?_⟩
  · have hfull : ∀ name, name ∈ validatedNames warm.store → warm.cache.contains name = true := by
      intro name hname
      rw [hwarming.store] at hname
      exact warmUp_contains hcount hname
    obtain ⟨hall, hlength⟩ := (warmUp_succeeds_iff hcold).mp hcount
    refine ⟨⟨(validatedNames store).toFinset, fun name => ?_, ?_, fun name hname => ?_⟩, ?_⟩
    · rw [List.mem_toFinset, mem_validatedNames_iff]
    · rw [List.toFinset_card_of_nodup (validatedNames_nodup store)]
      exact hlength
    · rw [List.mem_toFinset]
      constructor
      · intro hcached
        have hknown := knows_of_contains hwarm (by rw [hwarming.store]; exact hname) hcached
        rw [hwarming.store] at hknown
        exact mem_validatedNames_iff.mpr ⟨hknown, hname⟩
      · exact fun hmem => warmUp_contains hcount hmem
    · intro later value target channel hserves answer
      have hlater := foldl_perform_advances warm later
      have hafter := hlater.trans (validate_advances _ value target channel)
      refine ⟨validate_compiled (hlater.coherent hwarm) ?_ value channel, fun name hname => ?_⟩
      · rw [hlater.store, hwarming.store]
        exact canCompile_of_serves hall hserves
      · exact hafter.get?_eq hwarm hfull (by rw [hwarming.store]; exact hname)
  · exact warmUp_fails_iff hcold

end Session

end Conform
