import Conform.Proofs.Interference

/-!
# Retracing a pass

A pass on a shared cache, and the same pass on an empty one. The cold pass
compiles what the other finds cached, and finds it in order; on everything
else they take the same steps, so they end with the same value or the same
error.
-/

namespace Conform

open Cache

namespace Cache

variable {s : Store} {c : Cache} {pending : PendingTable} {name : TypeName} {location : String}

theorem empty_knows : empty.knows pending name = Table.contains name pending := by
  unfold knows
  exact Bool.or_false _

theorem require_run_of_knows {depth : Nat} (h : c.knows pending name = true) :
    StateT.run (s.require (m := Compile) c.lookup depth name location) pending =
      .ok ((), pending) := by
  cases depth with
  | zero => rw [Store.require_zero_run, if_pos h]
  | succ depth => rw [Store.require_succ, Store.requireStep_run, if_pos h]

/-- A type that has been required is known. -/
theorem knows_of_require {depth : Nat} {after : PendingTable}
    (h : StateT.run (s.require (m := Compile) c.lookup depth name location) pending =
      .ok ((), after)) : c.knows after name = true := by
  cases depth with
  | zero =>
    rw [Store.require_zero_run] at h
    cases hknown : c.knows pending name with
    | true => rw [hknown] at h; cases h; exact hknown
    | false => rw [hknown] at h; cases h
  | succ depth =>
    rw [Store.require_succ, Store.requireStep_run] at h
    cases hknown : c.knows pending name with
    | true => rw [hknown] at h; cases h; exact hknown
    | false =>
      rw [hknown] at h
      simp only [Bool.false_eq_true, if_false] at h
      obtain ⟨node, -, h⟩ := exists_ok_of_bind h
      obtain ⟨compiled, -, h⟩ := exists_ok_of_bind h
      cases h
      exact knows_insert.mpr (Or.inl rfl)

end Cache

namespace Work

variable {s : Store} {c c' : Cache} {pending cold : PendingTable} {name : TypeName}
  {location : String} {p : Pending}

/--
A pass on a shared cache beside the same pass on an empty one: the cold pass
has what the shared one has, and of the rest only what is cached by now.
-/
structure Joint (s : Store) (c : Cache) (pending cold : PendingTable) : Prop where
  coldPass : Pass s Cache.empty cold
  ordered : Table.Ordered pending
  same : ∀ {name p}, Table.get? name pending = some p → Table.get? name cold = some p
  covered : ∀ {name}, Cache.empty.knows cold name = true →
    Table.contains name pending = true ∨ c.contains name = true

theorem Joint.empty (s : Store) (c : Cache) : Joint s c [] [] where
  coldPass := Pass.empty s Cache.empty
  ordered := List.Pairwise.nil
  same h := by cases h
  covered h := by cases h

theorem Joint.grow (h : Joint s c pending cold) (hlater : Later s c c') :
    Joint s c' pending cold where
  coldPass := h.coldPass
  ordered := h.ordered
  same := h.same
  covered hknown := (h.covered hknown).imp_right hlater.grows.contains

theorem Joint.insert (h : Joint s c pending cold) (hvalidated : s.isExcluded name = false)
    (hnullable : p.nullable = s.ownNullable name) :
    Joint s c (Table.insert name p pending) (Table.insert name p cold) where
  coldPass := h.coldPass.insert rfl hvalidated hnullable
  ordered := h.ordered.insert name p
  same {other q} hget := by
    rw [Table.get?_insert] at hget ⊢
    split
    · next heq => rw [if_pos heq] at hget; exact hget
    · next hne => rw [if_neg hne] at hget; exact h.same hget
  covered {other} hknown := by
    rw [Table.contains_insert]
    rcases knows_insert.mp hknown with heq | hother
    · exact Or.inl (by rw [decide_eq_true heq, Bool.true_or])
    · exact (h.covered hother).imp_left fun hmet => by rw [hmet, Bool.or_true]

/-- What neither the shared pass nor the cache has, the cold pass has not met. -/
theorem Joint.unmet (h : Joint s c pending cold) (hpending : Table.contains name pending = false)
    (hcache : c.contains name = false) : Cache.empty.knows cold name = false := by
  rw [← Bool.not_eq_true]
  intro hknown
  rcases h.covered hknown with hmet | hmet
  · rw [hpending] at hmet
    cases hmet
  · rw [hcache] at hmet
    cases hmet

/-- How a pass on a shared cache ends beside its cold pass. -/
def JointEnds {α : Type} (s : Store) (cold : PendingTable)
    (coldRun : Except CompileError (α × PendingTable)) :
    Except CompileError (α × PendingTable) → Cache → Prop
  | .ok (a, pending), c => ∃ after, coldRun = .ok (a, after) ∧ Joint s c pending after ∧
      ∀ name, Cache.empty.knows cold name = true → Cache.empty.knows after name = true
  | .error e, _ => coldRun = .error e

/-- Compilations on a shared cache and cold ones that go together, up to a depth. -/
def goesWith (s : Store) (depth : Nat) : Simulation Compiling Compile where
  rel x y := ∀ c pending cold, Literal s c → Joint s c pending cold →
    (s.undiscovered Cache.empty cold).card ≤ depth →
    Safe s (JointEnds s cold (StateT.run y cold)) (ExceptT.run (StateT.run x pending)) c
  pure a c pending cold hc hjoint hdepth c' hlater :=
    ⟨cold, rfl, hjoint.grow hlater, fun _ h => h⟩
  bind {α β x y f g} hxy hfg c pending cold hc hjoint hdepth := by
    change Safe s _ (ExceptT.run (StateT.run x pending) >>=
      ExceptT.bindCont fun last => StateT.run (f last.1) last.2) c
    refine (hxy c pending cold hc hjoint hdepth).bind hc fun last c' hlater hlast => ?_
    rw [StateT.run_bind]
    cases last with
    | error e =>
      rw [show StateT.run y cold = .error e from hlast]
      exact fun _ _ => rfl
    | ok last =>
      obtain ⟨after, hrun, hjoint', hknown⟩ := hlast
      have hdepth' := (Finset.card_le_card (Store.undiscovered_subset hknown)).trans hdepth
      have hnext := hfg last.1 c' last.2 after hlater.literal hjoint' hdepth'
      rw [hrun]
      refine hnext.weaken hlater.literal fun answer c'' _ hends => ?_
      cases answer with
      | error e => exact hends
      | ok answer =>
        obtain ⟨final, hfinal, hjoint'', hmore⟩ := hends
        exact ⟨final, hfinal, hjoint'', fun name h => hmore name (hknown name h)⟩

theorem goesWith_keepsFailure (s : Store) (depth : Nat) : (goesWith s depth).KeepsFailure :=
  fun _ _ _ _ _ _ _ _ _ => rfl

/-- The one look into the cache that tells whether a type is known. -/
theorem isKnown_work {β : Type} (name : TypeName) (f : Bool → Compiling β) (pending : PendingTable) :
    ExceptT.run (StateT.run (Store.isKnown lookup name >>= f) pending) =
      if Table.contains name pending then ExceptT.run (StateT.run (f true) pending)
      else contains name fun known => ExceptT.run (StateT.run (f known) pending) := by
  change ExceptT.run (StateT.run ((if Table.contains name pending then pure true
    else lookup.contains name : Compiling Bool) >>= f) pending) = _
  cases Table.contains name pending <;> rfl

/-- What is left to do for a type that is not known. -/
theorem lower_work (s : Store) (next : TypeName → String → Compiling Unit) (name : TypeName)
    (location : String) (pending : PendingTable) :
    ExceptT.run (StateT.run (do
      let node ← MonadExcept.ofExcept (s.lower name location)
      modifyThe PendingTable (Table.insert name ⟨node.nullable, none⟩)
      let v ← node.compile (s.resolve lookup next) true name.text
      modifyThe PendingTable (Table.insert name ⟨node.nullable, some v⟩)) pending) =
    match s.lower name location with
    | .error e => done (.error e)
    | .ok node =>
      ExceptT.run (StateT.run (node.compile (s.resolve lookup next) true name.text)
        (Table.insert name ⟨node.nullable, none⟩ pending)) >>=
      fun compiled => match compiled with
        | .error e => done (.error e)
        | .ok (v, after) => done (.ok ((), Table.insert name ⟨node.nullable, some v⟩ after)) := by
  cases s.lower name location with
  | error e => rfl
  | ok node =>
    change Work.bind (ExceptT.run (StateT.run (node.compile (s.resolve lookup next) true name.text)
      (Table.insert name ⟨node.nullable, none⟩ pending))) _ = Work.bind _ _
    refine congrArg _ (funext fun compiled => ?_)
    cases compiled <;> rfl

/-- The cold pass compiles a type that is cached by now, and all of it is cached. -/
theorem Joint.require_cached (h : Joint s c pending cold) (hc : Literal s c)
    (hcached : c.contains name = true) (hvalidated : s.isExcluded name = false) {depth : Nat}
    (hdepth : (s.undiscovered Cache.empty cold).card ≤ depth) (location : String) :
    ∃ after, StateT.run (s.require (m := Compile) Cache.empty.lookup depth name location) cold =
      .ok ((), after) ∧ Joint s c pending after ∧
      ∀ other, Cache.empty.knows cold other = true → Cache.empty.knows after other = true := by
  have hprovides := require_provides (c := Cache.empty) (fun _ _ hreach hedge => hreach.tail hedge)
    depth name location cold (Relation.ReflTransGen.refl : s.Reaches name name) hvalidated
    h.coldPass hdepth
  cases hrun : StateT.run (s.require (m := Compile) Cache.empty.lookup depth name location) cold with
  | error e =>
    rw [hrun] at hprovides
    obtain ⟨other, hreach, hbroken⟩ := hprovides
    exact absurd (hc.coherent.compilable hvalidated hcached other hreach) hbroken
  | ok last =>
    rw [hrun] at hprovides
    obtain ⟨hpass, hgrows, -⟩ := hprovides
    refine ⟨last.2, rfl, ⟨hpass, h.ordered, fun hget => hgrows.keeps (h.same hget), ?_⟩,
      fun _ => hgrows.knows⟩
    intro other hknown
    cases hbefore : Cache.empty.knows cold other with
    | true => exact h.covered hbefore
    | false =>
      -- the cold pass has added it on the way from a cached type
      rw [empty_knows] at hknown hbefore
      obtain ⟨p, hp⟩ := Table.contains_iff.mp hknown
      have hreach := hgrows.allows hp (Table.contains_eq_false_iff.mp hbefore)
      exact Or.inr (hc.coherent.reaches hvalidated hcached hreach)

/-- Passes that go together on a type that neither knows go together on any. -/
theorem look_goesWith (hjoint : Joint s c pending cold)
    (hvalidated : s.isExcluded name = false) {depth : Nat}
    (hdepth : (s.undiscovered Cache.empty cold).card ≤ depth) {rest : Compiling Unit}
    (hrest : ∀ c', Later s c c' → Cache.empty.knows cold name = false →
      Safe s (JointEnds s cold
          (StateT.run (s.require (m := Compile) Cache.empty.lookup depth name location) cold))
        (ExceptT.run (StateT.run rest pending)) c') :
    Safe s (JointEnds s cold
        (StateT.run (s.require (m := Compile) Cache.empty.lookup depth name location) cold))
      (ExceptT.run (StateT.run (Store.isKnown lookup name >>= fun known =>
        if known then pure () else rest) pending)) c := by
  rw [isKnown_work]
  cases hpending : Table.contains name pending with
  | true =>
    obtain ⟨p, hp⟩ := Table.contains_iff.mp hpending
    have hknown : Cache.empty.knows cold name = true :=
      knows_iff.mpr (Or.inl ⟨p, hjoint.same hp⟩)
    exact fun c' hlater => ⟨cold, require_run_of_knows hknown, hjoint.grow hlater, fun _ h => h⟩
  | false =>
    intro c' hlater
    cases hcached : c'.contains name with
    | true =>
      obtain ⟨after, hrun, hjoint', hknown⟩ := (hjoint.grow hlater).require_cached hlater.literal
        hcached hvalidated hdepth location
      exact fun last hlast => ⟨after, hrun, hjoint'.grow hlast, hknown⟩
    | false => exact hrest c' hlater ((hjoint.grow hlater).unmet hpending hcached)

section Marked

variable (hs : s.AliasesShowNull)

include hs

/-- A known type tells both passes its own nullability. -/
theorem isNullable_goesWith (h : Joint s c pending cold)
    (hvalidated : s.isExcluded name = false) (hknown : Cache.empty.knows cold name = true) :
    Safe s (fun answer _ => answer = .ok (s.ownNullable name, pending))
      (ExceptT.run (StateT.run (Store.isNullable lookup name) pending)) c := by
  unfold Store.isNullable
  rw [run_pending]
  cases hpending : Table.get? name pending with
  | some p =>
    intro c' _
    rw [h.coldPass.nullable (h.same hpending)]
  | none =>
    rw [run_lookup]
    intro c' hlater
    have hcached : c'.contains name = true := by
      rcases h.covered hknown with hmet | hmet
      · obtain ⟨q, hq⟩ := Table.contains_iff.mp hmet
        rw [hpending] at hq
        cases hq
      · exact hlater.grows.contains hmet
    obtain ⟨v, hv⟩ := contains_iff.mp hcached
    rw [hv]
    intro _ _
    rw [hlater.literal.nullable hs hv hvalidated]

theorem resolve_goesWith {depth : Nat}
    (hrequire : ∀ c pending cold, Joint s c pending cold →
      (s.undiscovered Cache.empty cold).card ≤ depth → s.isExcluded name = false →
      Safe s (JointEnds s cold
          (StateT.run (s.require (m := Compile) Cache.empty.lookup depth name location) cold))
        (ExceptT.run (StateT.run (s.require lookup depth name location) pending)) c) :
    (goesWith s depth).rel (s.resolve lookup (s.require lookup depth) name location)
      (s.resolve Cache.empty.lookup (s.require Cache.empty.lookup depth) name location) := by
  intro c pending cold hc hjoint hdepth
  rw [Store.resolve_run]
  unfold Store.resolve
  cases hexcluded : s.isExcluded name with
  | true => exact fun c' hlater => ⟨cold, rfl, hjoint.grow hlater, fun _ h => h⟩
  | false =>
    simp only [Bool.false_eq_true, if_false]
    change Safe s _ (ExceptT.run (StateT.run (s.require lookup depth name location) pending) >>=
      ExceptT.bindCont fun last => StateT.run (Store.isNullable lookup name >>= fun nullable =>
        pure (Rule.named name, nullable)) last.2) c
    refine (hrequire c pending cold hjoint hdepth hexcluded).bind hc fun last c' hlater hlast => ?_
    cases last with
    | error e =>
      have hrun : StateT.run (s.require (m := Compile) Cache.empty.lookup depth name location) cold =
        .error e := hlast
      intro _ _
      rw [hrun]
      rfl
    | ok last =>
      obtain ⟨after, hrun, hjoint', hknown⟩ := hlast
      have hmet := knows_of_require hrun
      have hnullable := hjoint'.coldPass.nullability hmet
      rw [(Literal.empty s).inherited hs hexcluded] at hnullable
      rw [hrun]
      change Safe s _ (ExceptT.run (StateT.run (Store.isNullable lookup name) last.2) >>=
        ExceptT.bindCont fun answer => done (.ok ((Rule.named name, answer.1), answer.2))) c'
      refine (isNullable_goesWith hs hjoint' hexcluded hmet).bind hlater.literal
        fun answer c'' hlater' hanswer => ?_
      subst hanswer
      intro last' hlast'
      exact ⟨after, by rw [← hnullable]; rfl, hjoint'.grow (hlater'.trans hlast'), hknown⟩

theorem require_goesWith (depth : Nat) : ∀ name location c pending cold,
    Joint s c pending cold → (s.undiscovered Cache.empty cold).card ≤ depth →
    s.isExcluded name = false →
    Safe s (JointEnds s cold
        (StateT.run (s.require (m := Compile) Cache.empty.lookup depth name location) cold))
      (ExceptT.run (StateT.run (s.require lookup depth name location) pending)) c := by
  induction depth with
  | zero =>
    intro name location c pending cold hjoint hdepth hvalidated
    refine look_goesWith hjoint hvalidated hdepth fun c' _ hunknown => ?_
    rw [Store.require_zero_run, hunknown]
    exact fun _ _ => rfl
  | succ depth ih =>
    intro name location c pending cold hjoint hdepth hvalidated
    refine look_goesWith hjoint hvalidated hdepth fun c' hlater hunknown => ?_
    rw [Store.require_succ, Store.requireStep_run, hunknown]
    rw [lower_work]
    cases hlower : s.lower name location with
    | error e => exact fun _ _ => rfl
    | ok node =>
      have hlowers := Store.lower_eq_ok_iff.mp hlower
      have hstart := (hjoint.grow hlater).insert (p := ⟨node.nullable, none⟩) hvalidated
        hlowers.ownNullable.symm
      have hmore : ∀ other, Cache.empty.knows cold other = true →
          Cache.empty.knows (Table.insert name ⟨node.nullable, none⟩ cold) other = true :=
        fun other h => knows_insert.mpr (Or.inr h)
      have hless := Store.card_undiscovered_lt hmore hlowers hunknown
        (knows_insert.mpr (Or.inl rfl))
      have hcompile := Node.compile_simulated (goesWith_keepsFailure s depth) node
        (fun other _ location => resolve_goesWith hs (ih other location)) true name.text
      have hends := hcompile c' _ _ hlater.literal hstart (by omega)
      refine hends.bind hlater.literal fun compiled c'' hlater' hcompiled => ?_
      cases compiled with
      | error e =>
        have hrun : StateT.run (node.compile (m := Compile)
            (s.resolve Cache.empty.lookup (s.require Cache.empty.lookup depth)) true name.text)
            (Table.insert name ⟨node.nullable, none⟩ cold) = .error e := hcompiled
        intro _ _
        simp only [Bool.false_eq_true, if_false, Bind.bind, Except.bind, hrun]
        rfl
      | ok compiled =>
        obtain ⟨after, hrun, hjoint', hknown⟩ := hcompiled
        intro last hlast
        refine ⟨Table.insert name ⟨node.nullable, some compiled.1⟩ after, ?_,
          (hjoint'.insert hvalidated hlowers.ownNullable.symm).grow hlast, fun other hother => ?_⟩
        · simp only [Bool.false_eq_true, if_false, Bind.bind, Except.bind, hrun]
        · exact knows_insert.mpr (Or.inr (hknown other (hmore other hother)))

/-- A node compiles on a shared cache as on an empty one. -/
theorem compile_goesWith (node : Node) (required : Bool) (location : String) :
    (goesWith s s.depthLimit).rel
      (node.compile (s.resolve lookup (s.require lookup s.depthLimit)) required location)
      (node.compile (s.resolve Cache.empty.lookup (s.require Cache.empty.lookup s.depthLimit))
        required location) :=
  Node.compile_simulated (goesWith_keepsFailure s s.depthLimit) node
    (fun name _ location => resolve_goesWith hs (require_goesWith hs s.depthLimit name location))
    required location

end Marked

end Work

end Conform
