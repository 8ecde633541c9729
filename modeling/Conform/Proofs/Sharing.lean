import Conform.Proofs.History

/-!
# Clones on one cache

What a pass has compiled is published name by name, so another clone may see
one type and not yet the next. No clone can tell as long as no type refers to
a later one: then every cut through a publication leaves a coherent cache. A
forward reference is enough for a clone to meet a type that is not there yet.
-/

namespace Conform

open Cache

/-- No validated type refers to one that comes after it in name order. -/
def Store.PointsBack (s : Store) : Prop :=
  ∀ name other, s.isExcluded name = false → s.Edge name other → other = name ∨ other < name

namespace Work

variable {α β : Type} {s : Store} {c c' : Cache} {name : TypeName} {target : Target}
  {location : String}

/-- Types that may be published on a cache: what they refer to is among them or cached. -/
structure Publishable (s : Store) (c : Cache) (rest : PendingTable) : Prop where
  ordered : Table.Ordered rest
  validated : ∀ {name p}, Table.get? name rest = some p → s.isExcluded name = false
  ideal : ∀ {name p}, Table.get? name rest = some p →
    ∃ v, p.validator = some v ∧ IsIdeal s s.ownNullable name v
  closed : ∀ {name p}, Table.get? name rest = some p → ∀ other, s.Edge name other →
    Table.contains other rest = true ∨ c.contains other = true

/-- What a pass has compiled beside a cold pass that has ended may be published. -/
theorem Joint.publishable {pending cold : PendingTable} {allowed : TypeName → Prop}
    (h : Joint s c pending cold) (hgrows : Grows s Cache.empty allowed [] cold) :
    Publishable s c pending where
  ordered := h.ordered
  validated hget := h.coldPass.validated (h.same hget)
  ideal hget := hgrows.compiles (h.same hget) Table.get?_nil
  closed hget other hedge := h.covered (hgrows.closes (h.same hget) Table.get?_nil other hedge)

/-- Once all that a pass has compiled is published, all that its cold pass has met is cached. -/
theorem Joint.cached {pending cold : PendingTable} (h : Joint s c pending cold)
    (hlater : Later s c c')
    (hpublished : ∀ name, Table.contains name pending = true → c'.contains name = true)
    (hknown : Cache.empty.knows cold name = true) : c'.contains name = true := by
  rcases h.covered hknown with hpending | hcached
  · exact hpublished name hpending
  · exact hlater.grows.contains hcached

/-- What is left to publish once the first type is. -/
theorem Publishable.tail {p : Pending} {v : Validator} {rest : PendingTable}
    (h : Publishable s c ((name, p) :: rest)) : Publishable s (c.insert name v) rest := by
  obtain ⟨hfirst, hordered⟩ := List.pairwise_cons.mp h.ordered
  have hget : ∀ {other q}, Table.get? other rest = some q →
      Table.get? other ((name, p) :: rest) = some q := by
    intro other q hother
    have hlater := hfirst other (Table.mem_keys_iff.mpr (Table.contains_of_get? hother))
    rw [Table.get?_cons, if_neg fun heq => irrefl other (heq ▸ hlater)]
    exact hother
  refine ⟨hordered, fun hother => h.validated (hget hother), fun hother => h.ideal (hget hother),
    fun hother other hedge => ?_⟩
  rcases h.closed (hget hother) other hedge with hleft | hcached
  · obtain ⟨q, hq⟩ := Table.contains_iff.mp hleft
    rw [Table.get?_cons] at hq
    split at hq
    · next heq => exact Or.inr (heq ▸ contains_insert c name v)
    · exact Or.inl (Table.contains_of_get? hq)
  · exact Or.inr (Extends.contains (extends_insert name v) hcached)

theorem Publishable.grow {rest : PendingTable} (h : Publishable s c rest) (hgrows : c.Extends c') :
    Publishable s c' rest where
  ordered := h.ordered
  validated := h.validated
  ideal := h.ideal
  closed hget other hedge := (h.closed hget other hedge).imp_right hgrows.contains

/-- In name order, each type comes after what it refers to. -/
theorem Publishable.literal {p : Pending} {v : Validator} {rest : PendingTable}
    (h : Publishable s c ((name, p) :: rest)) (hback : s.PointsBack) (hc : Literal s c)
    (hv : p.validator = some v) : Literal s (c.insert name v) := by
  have hget : Table.get? name ((name, p) :: rest) = some p := by
    rw [Table.get?_cons, if_pos rfl]
  obtain ⟨w, hw, hideal⟩ := h.ideal hget
  cases hv.symm.trans hw
  refine hc.insert (h.validated hget) hideal fun other hedge => ?_
  rcases hback name other (h.validated hget) hedge with heq | hbefore
  · exact Or.inl heq
  rcases h.closed hget other hedge with hleft | hcached
  · -- what is left to publish comes later
    obtain ⟨hfirst, -⟩ := List.pairwise_cons.mp h.ordered
    rcases List.mem_cons.mp (Table.mem_keys_iff.mpr hleft) with heq | hmem
    · exact Or.inl heq
    · exact absurd (IsTrans.trans _ _ _ hbefore (hfirst other hmem)) (irrefl other)
  · exact Or.inr hcached

/-- Publishing keeps the cache literal at every step, and tells what is cached at the end. -/
theorem commit_safe (hback : s.PointsBack) (rest : PendingTable) (h : Publishable s c rest)
    (hc : Literal s c) :
    (commit rest).Safe s (fun committed c' =>
      (∀ name, Table.contains name rest = true → c'.contains name = true) ∧
        ∀ name v, Table.get? name committed = some v → c'.get? name = some v) c := by
  induction rest generalizing c with
  | nil => exact fun _ _ => ⟨fun _ hname => (by cases hname), fun _ _ hget => (by cases hget)⟩
  | cons entry rest ih =>
    obtain ⟨key, nullable, validator⟩ := entry
    have hfirst : Table.get? key ((key, ⟨nullable, validator⟩) :: rest) =
        some ⟨nullable, validator⟩ := by
      rw [Table.get?_cons, if_pos rfl]
    obtain ⟨v, hv, -⟩ := h.ideal hfirst
    cases hv
    intro c' hlater
    have hgrown := h.grow hlater.grows
    have hliteral := hgrown.literal hback hlater.literal rfl
    refine ⟨hliteral, ?_⟩
    obtain ⟨cached, hcached⟩ := contains_iff.mp (contains_insert c' key v)
    refine (ih hgrown.tail hliteral).bind hliteral fun committed last hlast hrest => ?_
    intro final hfinal
    have hgrows := (hlast.trans hfinal).grows
    refine ⟨fun name hname => ?_, fun name w hget => ?_⟩
    · rcases List.mem_cons.mp (Table.mem_keys_iff.mpr hname) with rfl | hmem
      · exact hgrows.contains (contains_insert c' _ v)
      · exact hfinal.grows.contains (hrest.1 name (Table.mem_keys_iff.mp hmem))
    · rw [Table.get?_cons] at hget
      split at hget
      · next heq =>
        subst heq
        rw [hcached] at hget
        cases hget
        exact hgrows _ _ hcached
      · exact hfinal.grows _ _ (hrest.2 name w hget)

theorem safe_lift_bind {x : Work α} {f : α → ExceptT CompileError Work β} {P : α → Cache → Prop}
    {R : Except CompileError β → Cache → Prop} (hx : x.Safe s P c) (hc : Literal s c)
    (hf : ∀ a c', Later s c c' → P a c' → (ExceptT.run (f a)).Safe s R c') :
    (ExceptT.run (ExceptT.lift x >>= f)).Safe s R c := by
  change ((x >>= fun a => done (.ok a)) >>= ExceptT.bindCont f).Safe s R c
  have hlift : (x >>= fun a => (done (.ok a) : Work (Except CompileError α))).Safe s
      (fun answer last => ∃ a c', answer = .ok a ∧ Later s c c' ∧ P a c' ∧ Later s c' last) c :=
    hx.bind hc fun a c' hlater ha => fun last hlast => ⟨a, c', rfl, hlater, ha, hlast⟩
  refine hlift.bind hc fun answer last _ hanswer => ?_
  obtain ⟨a, c', rfl, hlater, ha, hlast⟩ := hanswer
  exact (hf a c' hlater ha).grow hlast

/-- The answer of a compilation, where what its validator calls is cached by now. -/
def Answers (compiled : Except CompileError (Validator × Cache))
    (answer : Except CompileError Validator) (c : Cache) : Prop :=
  answer = compiled.map Prod.fst ∧
    ∀ v, answer = .ok v → ∀ callee ∈ v.calls, c.contains callee = true

section Marked

variable (hs : s.AliasesShowNull)

include hs

theorem answers_of_cached (hc : Literal s c) {v : Validator} (hget : c.get? name = some v) :
    Answers (s.compileNamed Cache.empty name) (.ok v) c := by
  refine ⟨?_, fun w hw callee hcallee => ?_⟩
  · have hcold := Store.compileNamed_retraces hs hc name
    rw [Store.compileNamed_cached hget] at hcold
    exact hcold
  · cases hw
    exact hc.coherent.calls hget hcallee

theorem compileFresh_safe (hback : s.PointsBack) (hc : Literal s c)
    (hname : s.isExcluded name = false) :
    (compileFresh s name).run.Safe s (Answers (s.compileNamed Cache.empty name)) c := by
  have hpass := require_goesWith hs s.depthLimit name name.text c [] [] (Joint.empty s c)
    Store.card_undiscovered_le hname
  change Safe s _ (ExceptT.run (StateT.run (s.require lookup s.depthLimit name name.text) []) >>=
    ExceptT.bindCont fun last => (ExceptT.lift (commit last.2) >>= fun committed => _)) c
  refine hpass.bind hc fun last c' hlater hlast => ?_
  have hcold := Store.compileNamed_fresh (c := Cache.empty) rfl hname
  cases last with
  | error e =>
    have hrun : StateT.run (s.require (m := Compile) Cache.empty.lookup s.depthLimit name name.text)
      [] = .error e := hlast
    rcases hcold with ⟨pending, v, hcompiles⟩ | ⟨e', hfails⟩
    · cases hrun.symm.trans hcompiles.run
    · cases hrun.symm.trans hfails.run
      intro _ _
      refine ⟨?_, fun v hv => by cases hv⟩
      rw [hfails.answer]
      rfl
  | ok last =>
    obtain ⟨after, hrun, hjoint, -⟩ := hlast
    rcases hcold with ⟨pending, v, hcompiles⟩ | ⟨e', hfails⟩
    · cases hrun.symm.trans hcompiles.run
      have hpublishable := hjoint.publishable hcompiles.grows
      refine safe_lift_bind (commit_safe hback last.2 hpublishable hlater.literal)
        hlater.literal fun committed c'' hlater' hcommitted => ?_
      cases hget : Table.get? name committed with
      | some v =>
        exact fun final hfinal => answers_of_cached hs hfinal.literal
          (hfinal.grows name v (hcommitted.2 name v hget))
      | none =>
        -- nothing was published for it, so another clone had cached it
        have hcached := hjoint.cached hlater' hcommitted.1 hcompiles.known
        rw [run_get]
        intro final hfinal
        obtain ⟨v, hv⟩ := contains_iff.mp (hfinal.grows.contains hcached)
        rw [hv]
        exact fun last hlast => answers_of_cached hs hlast.literal (hlast.grows name v hv)
    · cases hrun.symm.trans hfails.run

theorem compileNamed_safe (hback : s.PointsBack) (c : Cache) (name : TypeName) :
    (compileNamed s name).run.Safe s (Answers (s.compileNamed Cache.empty name)) c := by
  unfold compileNamed
  rw [run_get]
  intro c' hlater
  cases hget : c'.get? name with
  | some v =>
    exact fun last hlast => answers_of_cached hs hlast.literal (hlast.grows name v hget)
  | none =>
    cases hexcluded : s.isExcluded name with
    | true =>
      intro last hlast
      refine ⟨(Update.accept hexcluded).literal hs hlast.literal, ?_⟩
      obtain ⟨v, hv⟩ := contains_iff.mp (contains_insert last name (Store.acceptAll name))
      rw [hv]
      exact fun final hfinal => answers_of_cached hs hfinal.literal (hfinal.grows name v hv)
    | false => exact compileFresh_safe hs hback hlater.literal hexcluded

theorem compileInline_safe (hback : s.PointsBack) (hc : Literal s c) (d : Definition)
    (location : String) :
    (compileInline s d location).run.Safe s
      (Answers (s.compileInline Cache.empty d location)) c := by
  rw [Store.compileInline_eq]
  unfold compileInline
  cases d.lower .unspecified location with
  | error e => exact fun _ _ => ⟨rfl, fun v hv => by cases hv⟩
  | ok node =>
    have hpass := compile_goesWith hs node true location c [] [] hc (Joint.empty s c)
      Store.card_undiscovered_le
    change Safe s _ (ExceptT.run (StateT.run (node.compile
      (s.resolve lookup (s.require lookup s.depthLimit)) true location) []) >>=
      ExceptT.bindCont fun last => (ExceptT.lift (commit last.2) >>= fun _ => pure last.1)) c
    refine hpass.bind hc fun last c' hlater hlast => ?_
    simp only [Bind.bind, Except.bind]
    cases last with
    | error e =>
      have hrun : StateT.run (node.compile (m := Compile)
          (s.resolve Cache.empty.lookup (s.require Cache.empty.lookup s.depthLimit)) true location)
          [] = .error e := hlast
      rw [hrun]
      exact fun _ _ => ⟨rfl, fun v hv => by cases hv⟩
    | ok last =>
      obtain ⟨after, hrun, hjoint, -⟩ := hlast
      obtain ⟨-, hgrows, hknown⟩ := Store.compile_needed_ok hrun
      rw [hrun]
      refine safe_lift_bind (commit_safe hback last.2 (hjoint.publishable hgrows) hlater.literal)
        hlater.literal fun committed c'' hlater' hcommitted => ?_
      intro final hfinal
      refine ⟨rfl, fun v hv callee hcallee => hfinal.grows.contains ?_⟩
      cases hv
      exact hjoint.cached hlater' hcommitted.1 (hknown callee hcallee)

theorem compileTarget_safe (hback : s.PointsBack) (hc : Literal s c) (target : Target)
    (location : String) : (compileTarget s target location).run.Safe s
      (Answers (s.compileTarget Cache.empty target location)) c := by
  cases target with
  | named name => exact compileNamed_safe hs hback c name
  | inline d => exact compileInline_safe hs hback hc d location

end Marked

/-- A check that, from some cache on, comes to the same as one on a cache that stays as it is. -/
def checksLike (s : Store) (c : Cache) : Simulation (OptionT Work) Option where
  rel x y := ∀ c', Later s c c' → (OptionT.run x).Safe s (fun answer _ => answer = y) c'
  pure _ _ _ := fun _ _ => rfl
  bind {α β x y f g} hxy hfg c' hlater := by
    change ((OptionT.run x) >>= fun found => match found with
      | some a => OptionT.run (f a)
      | none => pure none).Safe s _ c'
    refine (hxy c' hlater).bind hlater.literal fun answer last hlast hanswer => ?_
    subst hanswer
    cases answer with
    | none => exact fun _ _ => rfl
    | some a => exact hfg a last (hlater.trans hlast)

/-- Hops to a type that two literal caches have come to the same from both. -/
theorem hop_checksLike {c₀ : Cache} (hc : Literal s c) (hc₀ : Literal s c₀) (encoded : Bool)
    (hops : Nat) : ∀ name, c.contains name = true → c₀.contains name = true → ∀ path v,
      (checksLike s c).rel (hop encoded hops name path v) (c₀.hop encoded hops name path v) := by
  induction hops with
  | zero => exact fun _ _ _ _ _ _ _ _ _ => rfl
  | succ hops ih =>
    intro name hname hname₀ path v c' hlater
    obtain ⟨w, hw⟩ := contains_iff.mp hname
    obtain ⟨w₀, hw₀⟩ := contains_iff.mp hname₀
    cases hc.agrees hc₀ hw hw₀
    rw [hop, check_get]
    intro last hlast
    have hget := (hlater.trans hlast).grows name w hw
    rw [hop_of_cached hw₀]
    rw [hget]
    have hcheck : (checksLike s c).rel (w.rule.check (hop encoded hops) encoded path v)
        (w.rule.check (c₀.hop encoded hops) encoded path v) := by
      refine Rule.check_simulated encoded w.rule v ?_ path
      intro callee hcallee path part _
      rw [Validator.calls_rule] at hcallee
      exact ih callee (hc.coherent.calls hw hcallee) (hc₀.coherent.calls hw₀ hcallee) path part
    exact hcheck last (hlater.trans hlast)

/-- What a clone answers, whatever others do meanwhile, is what a new session would. -/
theorem validate_safe (hs : s.AliasesShowNull) (hback : s.PointsBack) (hc : Literal s c)
    (request : Request) {hops : Nat}
    (hle : ((Session.ofStore s).validate request.value request.target
      request.channel).2.cache.hopLimit request.value ≤ hops) :
    (validate s hops request.value request.target request.channel).Safe s
      (fun verdict _ => verdict =
        ((Session.ofStore s).validate request.value request.target request.channel).1) c := by
  obtain ⟨value, target, channel⟩ := request
  have hcompile := compileTarget_safe hs hback hc target (Session.locationOf channel)
  unfold Session.validate Session.validatorFor Session.ofStore at hle ⊢
  unfold validate
  refine hcompile.bind hc fun answer c' hlater hanswer => ?_
  obtain ⟨hcold, hcalls⟩ := hanswer
  cases hcompiled : s.compileTarget Cache.empty target (Session.locationOf channel) with
  | error e =>
    rw [hcompiled] at hcold
    subst hcold
    exact fun _ _ => rfl
  | ok last =>
    obtain ⟨v, c₀⟩ := last
    rw [hcompiled] at hcold hle
    subst hcold
    obtain ⟨hupdate, hcalls₀⟩ := Store.compileTarget_ok hcompiled
    have hliteral := hupdate.literal hs (Literal.empty s)
    have hle : c₀.hopLimit value ≤ hops := hle
    have happly := Validator.apply_simulated (σ := checksLike s c') channel.stringEncoded v
      (some value) (fun w _ callee hcallee path part _ => hop_checksLike hlater.literal hliteral
        channel.stringEncoded hops callee (hcalls v rfl callee hcallee)
        (hcalls₀ (Coherent.empty s) callee hcallee) path part) FieldPath.root
    have houtcome := happly c' (Later.refl hlater.literal)
    rw [apply_hops v hle] at houtcome
    refine houtcome.bind hlater.literal fun outcome last _ houtcome => ?_
    subst houtcome
    exact fun _ _ => rfl

end Work

/-- The reasons that a verdict gives. -/
def Verdict.reasons : Verdict → List Reason
  | .rejected report => report.issues.map Issue.code
  | _ => []

namespace Clones

open Session

variable {ι : Type} {store : Store} {requests : ι → Request} {hops : ι → Nat}

/-- Clones of a session with any past, each with hops enough for a new session to answer. -/
theorem start_safe (hs : store.AliasesShowNull) (hback : store.PointsBack) (calls : List Call)
    (hhops : ∀ i, ((ofStore store).validate (requests i).value (requests i).target
      (requests i).channel).2.cache.hopLimit (requests i).value ≤ hops i) :
    (start (after store calls) requests hops).Safe store fun i verdict _ => verdict =
      ((ofStore store).validate (requests i).value (requests i).target (requests i).channel).1 := by
  have hliteral := (after_advances store calls).updates.literal hs (Literal.empty store)
  refine ⟨hliteral, fun i => ?_⟩
  have hsafe := Work.validate_safe hs hback hliteral (requests i) (hhops i)
  unfold start
  rw [after_store]
  exact hsafe

variable [DecidableEq ι]

/--
Where no type refers forward and aliases show null, a clone that gets turns
again and again answers at some point, and whenever it has answered, as a new
session would alone. No report is then about a type that cannot be found.
-/
theorem clones_answer_alone (hs : store.AliasesShowNull) (hback : store.PointsBack)
    (calls : List Call)
    (hhops : ∀ i, ((ofStore store).validate (requests i).value (requests i).target
      (requests i).channel).2.cache.hopLimit (requests i).value ≤ hops i)
    (turn : Nat → ι) (i : ι) :
    let cs := start (after store calls) requests hops
    let alone := ((ofStore store).validate (requests i).value (requests i).target
      (requests i).channel).1
    ((∀ n, ∃ m, n ≤ m ∧ turn m = i) → ∃ n, (cs.upTo turn n).answer? i = some alone) ∧
    (∀ n verdict, (cs.upTo turn n).answer? i = some verdict → verdict = alone) ∧
    .unresolvedType ∉ alone.reasons := by
  intro cs alone
  have hsafe : cs.Safe store fun i verdict _ => verdict =
      ((ofStore store).validate (requests i).value (requests i).target (requests i).channel).1 :=
    start_safe hs hback calls hhops
  have hanswers : ∀ n verdict, (cs.upTo turn n).answer? i = some verdict → verdict = alone :=
    fun n verdict h => (hsafe.run _).answers h
  refine ⟨fun hfair => ?_, hanswers, ?_⟩
  · obtain ⟨n, verdict, hanswer⟩ := eventually_answers hfair cs
    rw [hanswers n verdict hanswer] at hanswer
    exact ⟨n, hanswer⟩
  · intro hmem
    cases halone : alone with
    | rejected report =>
      rw [halone] at hmem
      obtain ⟨issue, hissue, hcode⟩ := List.mem_map.mp hmem
      exact validate_resolved (Coherent.empty store) halone issue hissue hcode
    | _ => rw [halone] at hmem; cases hmem

/-- A text, to be validated as what the alias stands for. -/
def aliasRequest : Request := ⟨.str "x", .named aliasName, .body⟩

/--
An alias is published before the text it stands for. A clone that asks in
between rejects for a type that cannot be found what either order accepts.
-/
theorem clone_meets_unpublished :
    let cs := (start (ofStore aliasStore) (fun _ : Bool => aliasRequest) fun _ => 4).run
      [false, false, false, false, true, true]
    let first := (ofStore aliasStore).validate aliasRequest.value aliasRequest.target
      aliasRequest.channel
    let second := first.2.validate aliasRequest.value aliasRequest.target aliasRequest.channel
    (cs.answer? true).map Verdict.reasons = some [.unresolvedType] ∧
      first.1.isAccepted = true ∧ second.1.isAccepted = true := by
  decide +kernel

end Clones

end Conform
