import Conform.Proofs.Alone
import Conform.Proofs.Retracing

/-!
# History of a session

The validator cache is meant to be invisible: what a session answers should
not depend on what it was asked before. That is so exactly where every name
for a nullable type is marked nullable as well.
-/

namespace Conform

open Cache

namespace Store

variable {s : Store} {c : Cache} {name : TypeName}

section Marked

variable (hs : s.AliasesShowNull) (hc : Literal s c)

include hs hc

/-- A pass over a literal cache ends as the pass over an empty one. -/
theorem require_retraces (hname : s.isExcluded name = false) (location : String) :
    Work.JointEnds s []
      (StateT.run (s.require (m := Compile) Cache.empty.lookup s.depthLimit name location) [])
      (StateT.run (s.require (m := Compile) c.lookup s.depthLimit name location) []) c := by
  have hsafe := Work.require_goesWith hs s.depthLimit name location c [] []
    (Work.Joint.empty s c) card_undiscovered_le hname
  have hends := hsafe.alone hc
  rw [Work.require_alone] at hends
  exact hends

theorem compile_retraces (node : Node) (location : String) :
    Work.JointEnds s [] (StateT.run (node.compile (m := Compile)
        (s.resolve Cache.empty.lookup (s.require Cache.empty.lookup s.depthLimit)) true location) [])
      (StateT.run (node.compile (m := Compile)
        (s.resolve c.lookup (s.require c.lookup s.depthLimit)) true location) []) c := by
  have hsafe := Work.compile_goesWith hs node true location c [] [] hc (Work.Joint.empty s c)
    card_undiscovered_le
  have hends := hsafe.alone hc
  rw [Work.compile_alone] at hends
  exact hends

/-- A named type compiles to the same on a warm cache and on an empty one. -/
theorem compileNamed_retraces (name : TypeName) :
    (s.compileNamed c name).map Prod.fst = (s.compileNamed Cache.empty name).map Prod.fst := by
  cases hexcluded : s.isExcluded name with
  | true =>
    rw [compileNamed_excluded (c := Cache.empty) rfl hexcluded]
    cases hget : c.get? name with
    | none => rw [compileNamed_excluded hget hexcluded]; rfl
    | some v =>
      rw [compileNamed_cached hget, hc.coherent.excluded hget hexcluded]
      rfl
  | false =>
    have hwarm := compileNamed_succeeds_iff hc.coherent hexcluded
    have hcold := compileNamed_succeeds_iff (Coherent.empty s) hexcluded
    rw [← hcold] at hwarm
    cases hrun : s.compileNamed c name with
    | ok last =>
      obtain ⟨v, c₀, hrun₀⟩ := hwarm.mp ⟨last.1, last.2, hrun⟩
      obtain ⟨hupdate, hget⟩ := compileNamed_ok hrun
      obtain ⟨hupdate₀, hget₀⟩ := compileNamed_ok hrun₀
      have heq := (hupdate.literal hs hc).agrees (hupdate₀.literal hs (Literal.empty s)) hget hget₀
      rw [hrun₀]
      exact congrArg Except.ok heq
    | error e =>
      have hget : c.get? name = none := by
        cases hget : c.get? name with
        | none => rfl
        | some v => rw [compileNamed_cached hget] at hrun; cases hrun
      have hretraces := require_retraces hs hc hexcluded name.text
      rcases compileNamed_fresh hget hexcluded with ⟨pending, v, hcompiles⟩ | ⟨e', hfails⟩
      · rw [hcompiles.answer] at hrun
        cases hrun
      · rw [hfails.run] at hretraces
        rcases compileNamed_fresh (c := Cache.empty) rfl hexcluded with
          ⟨after, v, hcompiles₀⟩ | ⟨e₀, hfails₀⟩
        · exact absurd (hcold.mp ⟨v, _, hcompiles₀.answer⟩) hfails.broken
        · have heq := hfails₀.run.symm.trans hretraces
          cases heq
          rw [← hrun, hfails.answer, hfails₀.answer]

/-- A schema object without a name does, too. -/
theorem compileInline_retraces (d : Definition) (location : String) :
    (s.compileInline c d location).map Prod.fst =
      (s.compileInline Cache.empty d location).map Prod.fst := by
  rw [compileInline_eq, compileInline_eq]
  cases d.lower .unspecified location with
  | error e => rfl
  | ok node =>
    have hends := compile_retraces hs hc node location
    simp only [Except.bind]
    cases hwarm : StateT.run (node.compile (m := Compile)
        (s.resolve c.lookup (s.require c.lookup s.depthLimit)) true location) [] with
    | error e =>
      rw [hwarm] at hends
      have hcold : StateT.run (node.compile (m := Compile)
          (s.resolve Cache.empty.lookup (s.require Cache.empty.lookup s.depthLimit)) true location)
          [] = .error e := hends
      rw [hcold]
      rfl
    | ok last =>
      rw [hwarm] at hends
      obtain ⟨after, hcold, -, -⟩ := hends
      rw [hcold]
      rfl

theorem compileTarget_retraces (target : Target) (location : String) :
    (s.compileTarget c target location).map Prod.fst =
      (s.compileTarget Cache.empty target location).map Prod.fst := by
  cases target with
  | named name => exact compileNamed_retraces hs hc name
  | inline d => exact compileInline_retraces hs hc d location

end Marked

end Store

/-- Whether a value was accepted. -/
def Verdict.isAccepted : Verdict → Bool
  | .accepted _ => true
  | _ => false

namespace Session

variable {s t t₀ : Session} {store : Store} {target : Target} {location : String} {v w : Validator}
  {name : TypeName}

/-- Literal caches check alike with a validator whose calls both have. -/
theorem outcome_of_literal {c c₀ : Cache} (hc : Literal store c) (hc₀ : Literal store c₀)
    (hcalls : ∀ callee ∈ v.calls, c.contains callee = true)
    (hcalls₀ : ∀ callee ∈ v.calls, c₀.contains callee = true) (encoded : Bool) (value : Json) :
    c.outcome? v encoded value = c₀.outcome? v encoded value := by
  have hagree : ∀ name, c.contains name = true ∧ c₀.contains name = true →
      c.get? name = c₀.get? name := by
    rintro name ⟨hname, hname₀⟩
    obtain ⟨w, hw⟩ := contains_iff.mp hname
    obtain ⟨w₀, hw₀⟩ := contains_iff.mp hname₀
    rw [hw, hw₀, hc.agrees hc₀ hw hw₀]
  have hcloses : c.Closes fun name => c.contains name = true ∧ c₀.contains name = true := by
    intro name w hname hw callee hcallee
    have hw₀ := hagree name hname ▸ hw
    exact ⟨hc.coherent.calls hw hcallee, hc₀.coherent.calls hw₀ hcallee⟩
  exact outcome_agrees hcloses hagree fun callee hcallee =>
    ⟨hcalls callee hcallee, hcalls₀ callee hcallee⟩

/-- Where aliases show null, a session with any past answers like a new one. -/
theorem validate_forgets (hs : store.AliasesShowNull) (hstore : s.store = store)
    (hc : Literal store s.cache) (value : Json) (target : Target) (channel : Channel) :
    (s.validate value target channel).1 = ((ofStore store).validate value target channel).1 := by
  have hretraces := Store.compileTarget_retraces hs hc target (locationOf channel)
  rw [← hstore] at hretraces
  have hfst := validatorFor_fst s target (locationOf channel)
  have hfst₀ := validatorFor_fst (ofStore store) target (locationOf channel)
  subst hstore
  unfold validate
  cases hwarm : s.validatorFor target (locationOf channel) with
  | mk answer t =>
    cases hcold : (ofStore s.store).validatorFor target (locationOf channel) with
    | mk answer₀ t₀ =>
      rw [hwarm] at hfst
      rw [hcold] at hfst₀
      have heq : answer = answer₀ := hfst.trans (hretraces.trans hfst₀.symm)
      subst heq
      cases answer with
      | error e => rfl
      | ok v =>
        obtain ⟨hupdate, hcalls⟩ := Store.compileTarget_ok (validatorFor_ok hwarm)
        obtain ⟨hupdate₀, hcalls₀⟩ := Store.compileTarget_ok (validatorFor_ok hcold)
        have houtcome := outcome_of_literal (hupdate.literal hs hc)
          (hupdate₀.literal hs (Literal.empty s.store)) (hcalls hc.coherent)
          (hcalls₀ (Coherent.empty s.store)) channel.stringEncoded value
        exact congrArg (Verdict.ofOutcome channel target.label) houtcome

/-- A schema object that refers to a name, and says nothing else. -/
def referenceTo (name : TypeName) : Definition :=
  plainDefinition { reference := some name.toReference }

theorem referenceTo_lower (name : TypeName) (location : String) :
    (referenceTo name).lower .unspecified location = .ok ⟨.reference name, false, false⟩ := by
  unfold referenceTo plainDefinition Definition.lower Lower.Parts.lower Lower.Parts.simple
  simp only [TypeName.ofReference_toReference]
  rfl

/-- A reference is required, and nullable as the cache has its type. -/
theorem compileInline_referenceTo {c : Cache} (hname : store.isExcluded name = false)
    (hcompilable : store.Compilable name) (location : String) :
    ∃ c', store.compileInline c (referenceTo name) location =
      .ok (⟨true, c.inherited name store, .named name⟩, c') := by
  have hprovides := require_provides (c := c) (fun _ _ hreach hedge => hreach.tail hedge)
    store.depthLimit name location [] (Relation.ReflTransGen.refl : store.Reaches name name) hname
    (Pass.empty store c) Store.card_undiscovered_le
  cases hrun : StateT.run
      (store.require (m := Compile) c.lookup store.depthLimit name location) [] with
  | error e =>
    rw [hrun] at hprovides
    exact absurd hcompilable (Store.not_compilable_of_broken hprovides)
  | ok last =>
    rw [hrun] at hprovides
    obtain ⟨hpass, -, hknown⟩ := hprovides
    refine ⟨c.commit last.2, ?_⟩
    have hcompile : StateT.run (Node.compile (m := Compile)
        (store.resolve c.lookup (store.require c.lookup store.depthLimit))
        ⟨.reference name, false, false⟩ true location) [] =
        .ok (⟨true, c.inherited name store, .named name⟩, last.2) := by
      unfold Node.compile NodeShape.compile
      rw [StateT.run_bind, Store.resolve_run, hname]
      simp only [Bool.false_eq_true, if_false, hrun, bind, Except.bind, hpass.nullability hknown]
      rfl
    unfold Store.compileInline Compile.run
    rw [referenceTo_lower]
    simp only [bind, Except.bind, hcompile]

/-- Null is accepted for a reference where the cache has its type as nullable. -/
theorem validate_null_referenceTo (hstore : s.store = store) (hname : store.isExcluded name = false)
    (hcompilable : store.Compilable name) :
    (s.validate .null (.inline (referenceTo name)) .body).1 = .accepted .null ↔
      s.cache.inherited name store = true := by
  subst hstore
  obtain ⟨c', hok⟩ := compileInline_referenceTo (c := s.cache) hname hcompilable (locationOf .body)
  have hvalidator : s.validatorFor (.inline (referenceTo name)) (locationOf .body) =
      (.ok ⟨true, s.cache.inherited name s.store, .named name⟩, { s with cache := c' }) := by
    change s.keep (s.store.compileInline s.cache (referenceTo name) (locationOf .body)) = _
    rw [hok]
    rfl
  have hverdict : (s.validate .null (.inline (referenceTo name)) .body).1 =
      Verdict.ofOutcome .body (Target.inline (referenceTo name)).label
        (some (if s.cache.inherited name s.store then Outcome.kept .null
          else Check.missing true (Rule.named name).expected FieldPath.root (some .null))) := by
    unfold validate
    rw [hvalidator]
    rfl
  rw [hverdict]
  cases s.cache.inherited name s.store with
  | true => exact ⟨fun _ => rfl, fun _ => rfl⟩
  | false => exact ⟨fun h => (by cases h), fun h => (by cases h)⟩

/-- What compiling a type leaves behind for references to it. -/
theorem inherited_after_compiled (hname : store.isExcluded name = false)
    (hcompilable : store.Compilable name) {node : Node} (hlowers : store.Lowers name node) :
    (after store [.compiled name]).cache.inherited name store =
      node.admitsNull store store.ownNullable := by
  change ((ofStore store).keep (store.compileNamed Cache.empty name)).2.cache.inherited name
    store = _
  rcases Store.compileNamed_fresh (c := Cache.empty) rfl hname with
    ⟨pending, v, hcompiles⟩ | ⟨e, hfails⟩
  · rw [hcompiles.answer]
    change (Cache.empty.commit pending).inherited name store = _
    unfold Cache.inherited
    rw [hcompiles.cached]
    change v.nullable = _
    rcases get?_commit_cases hcompiles.pass hcompiles.grows hcompiles.cached with
      hnone | ⟨_, -, -, node', noted, hlowers', hrun⟩
    · cases hnone
    · rw [(ideal_reads hrun).2.2.2, hlowers'.unique hlowers]
      rfl
  · exact absurd hcompilable hfails.broken

/-- A name for a nullable type that is not marked nullable tells the past of a session. -/
theorem aliasesShowNull_of_forgets
    (h : ∀ calls value target channel, ((after store calls).validate value target channel).1 =
      ((ofStore store).validate value target channel).1) : store.AliasesShowNull := by
  intro name target nullable hname hcompilable hlowers htarget hown
  have hnew := validate_null_referenceTo (s := ofStore store) rfl hname hcompilable
  have hold := validate_null_referenceTo (after_store store [.compiled name]) hname hcompilable
  rw [h, hnew, inherited_after_compiled hname hcompilable hlowers] at hold
  have hinherits : Node.admitsNull store store.ownNullable ⟨.reference target, nullable, false⟩ =
      true := by
    unfold Node.admitsNull
    rw [NodeShape.inherits, htarget, hown]
    exact Bool.or_true nullable
  exact hlowers.ownNullable.symm.trans (hold.mpr hinherits)

/-- What a session answers does not depend on its past exactly where aliases show null. -/
theorem forgets_history_iff (store : Store) :
    (∀ calls value target channel, ((after store calls).validate value target channel).1 =
      ((ofStore store).validate value target channel).1) ↔ store.AliasesShowNull := by
  constructor
  · exact aliasesShowNull_of_forgets
  · intro hs calls value target channel
    have hliteral := (after_advances store calls).updates.literal hs (Literal.empty store)
    exact validate_forgets hs (after_store store calls) hliteral value target channel

/-- Once the alias is compiled, a new holder accepts null; otherwise it does not. -/
theorem alias_tells_history :
    ((after aliasStore [.compiled aliasName]).validate
      (.obj [("m", .null)]) (.named holderName) .body).1 ≠
    ((ofStore aliasStore).validate (.obj [("m", .null)]) (.named holderName) .body).1 := by
  intro h
  have hold : Verdict.isAccepted ((after aliasStore [.compiled aliasName]).validate
      (.obj [("m", .null)]) (.named holderName) .body).1 = true := by decide +kernel
  have hnew : Verdict.isAccepted ((ofStore aliasStore).validate
      (.obj [("m", .null)]) (.named holderName) .body).1 = false := by decide +kernel
  rw [h, hnew] at hold
  cases hold

end Session

end Conform
