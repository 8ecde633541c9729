import Conform.Proofs.Pass

/-!
# The depth of a pass

Each step down makes a defined type pending, so a pass that may go as far down
as there are definitions never comes to its bound: what would happen there
makes no difference.
-/

namespace Conform

namespace Store

variable {s : Store} {c : Cache} {pending after : PendingTable} {name : TypeName} {location : String}

/-- Two runs end alike, and what was known stays known. -/
def EndAlike {α : Type} (c : Cache) (pending : PendingTable)
    (run run' : Except CompileError (α × PendingTable)) : Prop :=
  run = run' ∧ ∀ a after, run = .ok (a, after) →
    ∀ name, c.knows pending name = true → c.knows after name = true

/-- Two compilations run alike wherever no more types than the depth are undiscovered. -/
def runsAlike (s : Store) (c : Cache) (depth : Nat) : Simulation Compile Compile where
  rel x y := ∀ pending, (s.undiscovered c pending).card ≤ depth →
    EndAlike c pending (StateT.run x pending) (StateT.run y pending)
  pure a pending hdepth := by
    refine ⟨rfl, fun b after hrun name hname => ?_⟩
    cases hrun
    exact hname
  bind {α β x y f g} hxy hfg pending hdepth := by
    obtain ⟨hrun, hknown⟩ := hxy pending hdepth
    unfold EndAlike
    rw [StateT.run_bind, StateT.run_bind, ← hrun]
    cases hx : StateT.run x pending with
    | error e => exact ⟨rfl, fun b after h => by cases h⟩
    | ok middle =>
      have hmiddle := hknown middle.1 middle.2 hx
      have hless := (Finset.card_le_card (undiscovered_subset hmiddle)).trans hdepth
      obtain ⟨hnext, hlast⟩ := hfg middle.1 middle.2 hless
      exact ⟨hnext, fun b after h name hname => hlast b after h name (hmiddle name hname)⟩

theorem runsAlike_keepsFailure (depth : Nat) : (runsAlike s c depth).KeepsFailure :=
  fun _ _ _ => ⟨rfl, fun _ _ h => by cases h⟩

theorem resolve_runsAlike {depth : Nat} {require require' : TypeName → String → Compile Unit}
    (h : (runsAlike s c depth).rel (require name location) (require' name location)) :
    (runsAlike s c depth).rel (s.resolve c.lookup require name location)
      (s.resolve c.lookup require' name location) := by
  intro pending hdepth
  obtain ⟨hrun, hknown⟩ := h pending hdepth
  unfold EndAlike
  rw [resolve_run, resolve_run, ← hrun]
  refine ⟨rfl, fun a after hok => ?_⟩
  cases hexcluded : s.isExcluded name with
  | true =>
    rw [hexcluded] at hok
    cases hok
    exact fun _ h => h
  | false =>
    rw [hexcluded] at hok
    cases hrequire : StateT.run (require name location) pending with
    | error e => rw [hrequire] at hok; cases hok
    | ok required =>
      rw [hrequire] at hok
      cases hok
      exact hknown required.1 required.2 hrequire

/-- What requiring a type does once nothing is left to discover: it looks whether it is known. -/
def look (c : Cache) (name : TypeName) (location : String) (pending : PendingTable) :
    Except CompileError (Unit × PendingTable) :=
  if c.knows pending name then .ok ((), pending) else .error (.unknownType name.text location)

theorem look_endAlike : EndAlike c pending (look c name location pending)
    (look c name location pending) := by
  refine ⟨rfl, fun a after hrun other hother => ?_⟩
  unfold look at hrun
  split at hrun
  · cases hrun
    exact hother
  · cases hrun

theorem requireStep_run_of_discovered (hnone : (s.undiscovered c pending).card = 0)
    (next : TypeName → String → Compile Unit) :
    StateT.run (s.requireStep c next name location) pending = look c name location pending := by
  rw [requireStep_run, look]
  cases hknown : c.knows pending name with
  | true => rfl
  | false =>
    have hundefined : s.definition? name = none := by
      refine Option.eq_none_iff_forall_ne_some.mpr fun d hd => ?_
      have hmem := mem_undiscovered_iff.mpr ⟨⟨d, hd⟩, hknown⟩
      rw [Finset.card_eq_zero.mp hnone] at hmem
      exact absurd hmem (Finset.notMem_empty name)
    rw [lower_eq_unknown hundefined]
    rfl

theorem require_run_of_discovered (hnone : (s.undiscovered c pending).card = 0) (depth : Nat) :
    StateT.run (s.require (m := Compile) c.lookup depth name location) pending =
      look c name location pending := by
  cases depth with
  | zero => exact require_zero_run s c pending name location
  | succ depth => exact requireStep_run_of_discovered hnone _

/-- Steps whose ways on run alike run alike. -/
theorem requireStep_runsAlike {next next' : TypeName → String → Compile Unit}
    (hnext : ∀ other location pending',
      (s.undiscovered c pending').card < (s.undiscovered c pending).card →
      EndAlike c pending' (StateT.run (next other location) pending')
        (StateT.run (next' other location) pending')) :
    EndAlike c pending (StateT.run (s.requireStep c next name location) pending)
      (StateT.run (s.requireStep c next' name location) pending) := by
  unfold EndAlike
  rw [requireStep_run, requireStep_run]
  cases hknown : c.knows pending name with
  | true => exact ⟨rfl, fun a after hrun other hother => by cases hrun; exact hother⟩
  | false =>
    cases hlower : s.lower name location with
    | error e => exact ⟨rfl, fun a after hrun => by cases hrun⟩
    | ok node =>
      have hmore : ∀ other, c.knows pending other = true →
          c.knows (Table.insert name ⟨node.nullable, none⟩ pending) other = true :=
        fun other h => Cache.knows_insert.mpr (Or.inr h)
      have hless := card_undiscovered_lt hmore (lower_eq_ok_iff.mp hlower) hknown
        (Cache.knows_insert.mpr (Or.inl rfl))
      have hcompile := Node.compile_simulated (runsAlike_keepsFailure (s := s) (c := c)
          (s.undiscovered c (Table.insert name ⟨node.nullable, none⟩ pending)).card) node
        (fun other _ location => resolve_runsAlike fun pending' hpending' =>
          hnext other location pending' (Nat.lt_of_le_of_lt hpending' hless)) true name.text
      obtain ⟨hrun, hend⟩ := hcompile _ (Nat.le_refl _)
      simp only [Bool.false_eq_true, if_false, bind, Except.bind, ← hrun]
      refine ⟨trivial, fun a after hafter other hother => ?_⟩
      cases hcompiled : StateT.run (node.compile (s.resolve c.lookup next) true name.text)
          (Table.insert name ⟨node.nullable, none⟩ pending) with
      | error e => rw [hcompiled] at hafter; cases hafter
      | ok compiled =>
        rw [hcompiled] at hafter
        cases hafter
        exact Cache.knows_insert.mpr
          (Or.inr (hend compiled.1 compiled.2 hcompiled other (hmore other hother)))

/-- Requiring within a bound that suffices is requiring step by step, whatever comes after. -/
theorem require_runsAlike (bottom : TypeName → String → Compile Unit) (depth : Nat) :
    ∀ steps name location pending, (s.undiscovered c pending).card ≤ depth →
      (s.undiscovered c pending).card < steps →
      EndAlike c pending
        (StateT.run (s.require (m := Compile) c.lookup depth name location) pending)
        (StateT.run ((s.requireStep c)^[steps] bottom name location) pending) := by
  induction depth with
  | zero =>
    intro steps name location pending hdepth hsteps
    have hnone := Nat.le_zero.mp hdepth
    obtain ⟨steps, rfl⟩ := Nat.exists_eq_succ_of_ne_zero (Nat.ne_of_gt (Nat.zero_lt_of_lt hsteps))
    rw [Function.iterate_succ_apply', require_run_of_discovered hnone,
      requireStep_run_of_discovered hnone]
    exact look_endAlike
  | succ depth ih =>
    intro steps name location pending hdepth hsteps
    obtain ⟨steps, rfl⟩ := Nat.exists_eq_succ_of_ne_zero (Nat.ne_of_gt (Nat.zero_lt_of_lt hsteps))
    rw [Function.iterate_succ_apply', require_succ]
    refine requireStep_runsAlike fun other location pending' hless => ?_
    exact ih steps other location pending' (by omega) (by omega)

/-- Requiring a type takes no more steps down than there are definitions, and one more. -/
theorem requireStep_iterate {steps : Nat} (hsteps : s.depthLimit < steps)
    (bottom : TypeName → String → Compile Unit) :
    (s.requireStep c)^[steps] bottom = s.require c.lookup s.depthLimit := by
  funext name location pending
  exact (require_runsAlike bottom s.depthLimit steps name location pending card_undiscovered_le
    (Nat.lt_of_le_of_lt card_undiscovered_le hsteps)).1.symm

end Store

end Conform
