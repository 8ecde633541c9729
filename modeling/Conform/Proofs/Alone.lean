import Conform.Proofs.Runs
import Conform.Sharing

/-!
# A clone alone

What a clone does step by step on a shared cache is, without anyone in
between, what a session does on its own.
-/

namespace Conform

section Simulated

variable {m n : Type → Type} [Monad m] [Monad n] [MonadExceptOf CompileError m]
  [MonadExceptOf CompileError n] [MonadStateOf PendingTable m] [MonadStateOf PendingTable n]
  {cache : Lookup m} {cache' : Lookup n}

/-- The runs agree on what they read and write: pending types, the cache, and failures. -/
structure Simulation.Reads (σ : Simulation m n) (cache : Lookup m) (cache' : Lookup n) : Prop where
  keepsFailure : σ.KeepsFailure
  pending : σ.rel (getThe PendingTable : m PendingTable) (getThe PendingTable : n PendingTable)
  write : ∀ f : PendingTable → PendingTable,
    σ.rel (modifyThe PendingTable f : m PUnit) (modifyThe PendingTable f : n PUnit)
  get? : ∀ name, σ.rel (cache.get? name) (cache'.get? name)
  contains : ∀ name, σ.rel (cache.contains name) (cache'.contains name)

namespace Store

variable {σ : Simulation m n} (h : σ.Reads cache cache')

include h

theorem isKnown_simulated (name : TypeName) : σ.rel (isKnown cache name) (isKnown cache' name) := by
  refine σ.bind h.pending fun pending => ?_
  split
  · exact σ.pure true
  · exact h.contains name

theorem isNullable_simulated (name : TypeName) :
    σ.rel (isNullable cache name) (isNullable cache' name) := by
  refine σ.bind h.pending fun pending => ?_
  split
  · exact σ.pure _
  · refine σ.bind (h.get? name) fun found => ?_
    cases found with
    | some v => exact σ.pure _
    | none => exact σ.pure _

theorem resolve_simulated (s : Store) {require : TypeName → String → m Unit}
    {require' : TypeName → String → n Unit} {name : TypeName} {location : String}
    (hrequire : σ.rel (require name location) (require' name location)) :
    σ.rel (s.resolve cache require name location) (s.resolve cache' require' name location) := by
  unfold resolve
  split
  · exact σ.pure _
  · exact σ.bind hrequire fun _ => σ.bind (isNullable_simulated h name) fun _ => σ.pure _

theorem require_simulated (s : Store) (depth : Nat) : ∀ name location,
    σ.rel (s.require cache depth name location) (s.require cache' depth name location) := by
  induction depth with
  | zero =>
    intro name location
    unfold require
    refine σ.bind (isKnown_simulated h name) fun known => ?_
    split
    · exact σ.pure ()
    · exact h.keepsFailure _
  | succ depth ih =>
    intro name location
    unfold require
    refine σ.bind (isKnown_simulated h name) fun known => ?_
    split
    · exact σ.pure ()
    · refine σ.bind (Simulation.KeepsFailure.ofExcept h.keepsFailure _) fun node =>
        σ.bind (h.write _) fun _ => ?_
      have hnode := Node.compile_simulated h.keepsFailure node
        (fun other _ location => resolve_simulated h s (ih other location)) true name.text
      exact σ.bind hnode fun v => h.write _

end Store

end Simulated

namespace Work

variable {α β : Type} {s : Store} {c : Cache} {name : TypeName} {location : String}

theorem alone_bind (x : Work α) (f : α → Work β) (c : Cache) :
    (x >>= f).alone c = (f (x.alone c).1).alone (x.alone c).2 := by
  change (x.bind f).alone c = _
  induction x generalizing c with
  | done a => rfl
  | get name next ih => exact ih _ c
  | contains name next ih => exact ih _ c
  | insert name v next ih => exact ih _ _

/-- Alone on a cache, a compilation does what it does on a cache that stays as it is. -/
def likeAlone (c : Cache) : Simulation Compiling Compile where
  rel x y := ∀ pending,
    Work.alone (ExceptT.run (StateT.run x pending)) c = (StateT.run y pending, c)
  pure a pending := rfl
  bind {α β x y f g} hxy hfg pending := by
    change Work.alone (ExceptT.run (StateT.run x pending) >>=
      ExceptT.bindCont fun last => StateT.run (f last.1) last.2) c = _
    rw [alone_bind, hxy pending, StateT.run_bind]
    cases StateT.run y pending with
    | error e => rfl
    | ok last => exact hfg last.1 last.2

theorem likeAlone_reads (c : Cache) : (likeAlone c).Reads lookup c.lookup where
  keepsFailure _ _ := rfl
  pending _ := rfl
  write _ _ := rfl
  get? _ _ := rfl
  contains _ _ := rfl

/-- Publishing alone caches what a commit does, and answers with what is cached then. -/
theorem commit_alone (pending : PendingTable) (c : Cache) :
    ((commit pending).alone c).2 = c.commit pending ∧
      ∀ name v, Table.get? name ((commit pending).alone c).1 = some v →
        (c.commit pending).get? name = some v := by
  induction pending generalizing c with
  | nil => exact ⟨rfl, fun _ _ h => by cases h⟩
  | cons entry rest ih =>
    obtain ⟨key, nullable, validator⟩ := entry
    cases validator with
    | none => exact ih c
    | some w =>
      obtain ⟨hcache, hanswer⟩ := ih (c.insert key w)
      rw [commit, alone_bind, alone_bind]
      refine ⟨hcache, fun name v hget => ?_⟩
      change Table.get? name ((key, ((c.insert key w).get? key).getD w) ::
        ((commit rest).alone (c.insert key w)).1) = some v at hget
      rw [Table.get?_cons] at hget
      split at hget
      · next heq =>
        subst heq
        refine Cache.extends_commit (c.insert key w) rest key v ?_
        cases hget
        rw [Cache.get?_insert, if_pos rfl]
        cases c.get? key <;> rfl
      · exact hanswer name v hget

theorem alone_lift_bind (x : Work α) (f : α → ExceptT CompileError Work β) (c : Cache) :
    (ExceptT.run (ExceptT.lift x >>= f)).alone c =
      (ExceptT.run (f (x.alone c).1)).alone (x.alone c).2 := by
  change ((x >>= fun a => done (.ok a)) >>= ExceptT.bindCont f).alone c = _
  rw [alone_bind, alone_bind]
  rfl

theorem alone_run_bind (x : ExceptT CompileError Work α) (f : α → ExceptT CompileError Work β)
    (c : Cache) : (ExceptT.run (x >>= f)).alone c =
      match (ExceptT.run x).alone c with
      | (.ok a, c') => (ExceptT.run (f a)).alone c'
      | (.error e, c') => (.error e, c') := by
  change (x.run >>= ExceptT.bindCont f).alone c = _
  rw [alone_bind]
  cases (ExceptT.run x).alone c with
  | mk answer c' => cases answer <;> rfl

theorem require_alone (s : Store) (depth : Nat) (name : TypeName) (location : String)
    (pending : PendingTable) (c : Cache) :
    (ExceptT.run (StateT.run (s.require lookup depth name location) pending)).alone c =
      (StateT.run (s.require (m := Compile) c.lookup depth name location) pending, c) :=
  Store.require_simulated (likeAlone_reads c) s depth name location pending

theorem compile_alone (s : Store) (node : Node) (location : String) (pending : PendingTable)
    (c : Cache) :
    (ExceptT.run (StateT.run (node.compile (s.resolve lookup (s.require lookup s.depthLimit)) true
      location) pending)).alone c =
      (StateT.run (node.compile (m := Compile) (s.resolve c.lookup (s.require c.lookup s.depthLimit))
        true location) pending, c) := by
  have hreads := likeAlone_reads c
  exact Node.compile_simulated hreads.keepsFailure node
    (fun name _ location => Store.resolve_simulated hreads s
      (Store.require_simulated hreads s s.depthLimit name location)) true location pending

/-- The answer of a compilation, and the cache it leaves behind. -/
def settled (c : Cache) :
    Except CompileError (Validator × Cache) → Except CompileError Validator × Cache
  | .ok (v, c') => (.ok v, c')
  | .error e => (.error e, c)

theorem compileFresh_alone (hget : c.get? name = none) (hvalidated : s.isExcluded name = false) :
    (compileFresh s name).run.alone c = settled c (s.compileNamed c name) := by
  unfold compileFresh
  rw [alone_run_bind, require_alone]
  rcases Store.compileNamed_fresh hget hvalidated with ⟨pending, v, hcompiles⟩ | ⟨e, hfails⟩
  · obtain ⟨hcache, hanswer⟩ := commit_alone pending c
    rw [hcompiles.run, hcompiles.answer]
    change (ExceptT.run (ExceptT.lift (commit pending) >>= _)).alone c = _
    rw [alone_lift_bind, hcache]
    cases hcommitted : Table.get? name ((commit pending).alone c).1 with
    | some w =>
      have hw := hanswer name w hcommitted
      rw [hcompiles.cached] at hw
      cases hw
      rfl
    | none =>
      rw [run_get]
      simp only [alone, hcompiles.cached]
      rfl
  · rw [hfails.run, hfails.answer]
    rfl

theorem compileNamed_alone (s : Store) (c : Cache) (name : TypeName) :
    (compileNamed s name).run.alone c = settled c (s.compileNamed c name) := by
  unfold compileNamed
  rw [run_get, alone]
  cases hget : c.get? name with
  | some v =>
    rw [Store.compileNamed_cached hget]
    rfl
  | none =>
    cases hexcluded : s.isExcluded name with
    | true =>
      rw [Store.compileNamed_excluded hget hexcluded]
      have hinsert : (c.insert name (Store.acceptAll name)).get? name =
          some (Store.acceptAll name) := by
        rw [Cache.get?_insert, hget, if_pos rfl, Option.none_or]
      change (Except.ok (((c.insert name (Store.acceptAll name)).get? name).getD _), _) = _
      rw [hinsert]
      rfl
    | false => exact compileFresh_alone hget hexcluded

theorem compileInline_alone (s : Store) (c : Cache) (d : Definition) (location : String) :
    (compileInline s d location).run.alone c = settled c (s.compileInline c d location) := by
  rw [Store.compileInline_eq]
  unfold compileInline
  cases d.lower .unspecified location with
  | error e => rfl
  | ok node =>
    change (ExceptT.run (StateT.run (node.compile
      (s.resolve lookup (s.require lookup s.depthLimit)) true location) [] >>= _)).alone c = _
    change _ = settled c ((StateT.run (node.compile (m := Compile)
      (s.resolve c.lookup (s.require c.lookup s.depthLimit)) true location) []).map _)
    rw [alone_run_bind, compile_alone]
    cases StateT.run (node.compile (m := Compile)
        (s.resolve c.lookup (s.require c.lookup s.depthLimit)) true location) [] with
    | error e => rfl
    | ok last =>
      change (ExceptT.run (ExceptT.lift (commit last.2) >>= _)).alone c = _
      rw [alone_lift_bind, (commit_alone last.2 c).1]
      rfl

theorem compileTarget_alone (s : Store) (c : Cache) (target : Target) (location : String) :
    (compileTarget s target location).run.alone c =
      settled c (s.compileTarget c target location) := by
  cases target with
  | named name => exact compileNamed_alone s c name
  | inline d => exact compileInline_alone s c d location

/-- Alone on a cache, a check does what it does on a cache that stays as it is. -/
def checksAlone (c : Cache) : Simulation (OptionT Work) Option where
  rel x y := (OptionT.run x).alone c = (y, c)
  pure _ := rfl
  bind {α β x y f g} hxy hfg := by
    change ((OptionT.run x) >>= fun found => match found with
      | some a => OptionT.run (f a)
      | none => pure none).alone c = _
    rw [alone_bind, hxy]
    cases y with
    | none => rfl
    | some a => exact hfg a

theorem hop_alone (c : Cache) (encoded : Bool) (hops : Nat) : ∀ name path v,
    (checksAlone c).rel (hop encoded hops name path v) (c.hop encoded hops name path v) := by
  induction hops with
  | zero => exact fun _ _ _ => rfl
  | succ hops ih =>
    intro name path v
    change (OptionT.run (hop encoded (hops + 1) name path v)).alone c = _
    rw [hop, check_get, alone]
    cases hget : c.get? name with
    | none => rw [Cache.hop_of_missing hget]; rfl
    | some validator =>
      rw [Cache.hop_of_cached hget]
      exact Rule.check_simulated encoded validator.rule v
        (fun callee _ path part _ => ih callee path part) path

/-- Alone, a clone with enough hops does what its session does. -/
theorem validate_alone (session : Session) (value : Json) (target : Target) (channel : Channel)
    {hops : Nat} (hle : (session.validate value target channel).2.cache.hopLimit value ≤ hops) :
    (validate session.store hops value target channel).alone session.cache =
      ((session.validate value target channel).1,
        (session.validate value target channel).2.cache) := by
  have hcompile := compileTarget_alone session.store session.cache target
    (Session.locationOf channel)
  unfold Session.validate Session.validatorFor at hle ⊢
  unfold validate
  rw [alone_bind, hcompile]
  cases hcompiled : session.store.compileTarget session.cache target
      (Session.locationOf channel) with
  | error e => rfl
  | ok last =>
    obtain ⟨v, c⟩ := last
    rw [hcompiled] at hle
    have hle : c.hopLimit value ≤ hops := hle
    have happly := Validator.apply_simulated (σ := checksAlone c) channel.stringEncoded v
      (some value) (fun w _ callee _ path part _ =>
        hop_alone c channel.stringEncoded hops callee path part) FieldPath.root
    change ((OptionT.run (v.apply (hop channel.stringEncoded hops) channel.stringEncoded
      FieldPath.root (some value))) >>= _).alone c = _
    rw [alone_bind, happly, Cache.apply_hops v hle]
    rfl

end Work

end Conform
