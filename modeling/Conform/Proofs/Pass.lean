import Conform.Proofs.Ideal
import Conform.Proofs.Simulation
import Conform.Proofs.Table
import Mathlib.Data.Finset.Card
import Mathlib.Data.Finset.Dedup

/-!
# Compilation passes

One pass over the types that a name leads to. What was pending stays as it is,
and every type that the pass adds is allowed, sound, compiled, and has only
known types behind its references. A pass fails only if a type that it may
meet is not sound, and the bound on its depth is never what stops it.
-/

namespace Conform

namespace Cache

variable (c : Cache) (pending : PendingTable) (name : TypeName)

/-- Whether a type is pending or cached. -/
def knows : Bool := Table.contains name pending || c.contains name

/-- The nullability that a reference to a known type finds. -/
def nullability : Bool :=
  match Table.get? name pending with
  | some p => p.nullable
  | none =>
    match c.get? name with
    | some v => v.nullable
    | none => false

/-- The nullability of a type as the cache has it, or else its own. -/
def inherited (s : Store) : Bool :=
  match c.get? name with
  | some v => v.nullable
  | none => s.ownNullable name

end Cache

namespace Store

/-- One step down of requiring a type, with a function that goes on from there. -/
def requireStep (s : Store) (c : Cache) (next : TypeName → String → Compile Unit)
    (name : TypeName) (location : String) : Compile Unit := do
  if ← isKnown c.lookup name then pure ()
  else
    let node ← MonadExcept.ofExcept (s.lower name location)
    modifyThe PendingTable (Table.insert name ⟨node.nullable, none⟩)
    let v ← node.compile (s.resolve c.lookup next) true name.text
    modifyThe PendingTable (Table.insert name ⟨node.nullable, some v⟩)

section Runs

variable (s : Store) (c : Cache) (pending : PendingTable) (name : TypeName) (location : String)

theorem isKnown_run :
    StateT.run (isKnown (m := Compile) c.lookup name) pending =
      .ok (c.knows pending name, pending) := by
  unfold isKnown Cache.knows
  change StateT.run (m := Except CompileError)
    (if Table.contains name pending = true then pure true else pure (c.contains name)) pending = _
  cases Table.contains name pending <;> rfl

theorem isNullable_run :
    StateT.run (isNullable (m := Compile) c.lookup name) pending =
      .ok (c.nullability pending name, pending) := by
  unfold isNullable Cache.nullability
  change StateT.run (m := Except CompileError)
    (match Table.get? name pending with | some p => pure p.nullable | none => _) pending = _
  cases Table.get? name pending with
  | some p => rfl
  | none =>
    change StateT.run (m := Except CompileError)
      (match c.get? name with | some v => pure v.nullable | none => pure false) pending = _
    cases c.get? name <;> rfl

theorem require_zero_run :
    StateT.run (s.require (m := Compile) c.lookup 0 name location) pending =
      if c.knows pending name then .ok ((), pending)
      else .error (.unknownType name.text location) := by
  unfold require
  rw [StateT.run_bind, isKnown_run]
  change StateT.run (m := Except CompileError)
    (if c.knows pending name then pure () else throw _) pending = _
  cases c.knows pending name <;> rfl

theorem require_succ (depth : Nat) :
    s.require (m := Compile) c.lookup (depth + 1) =
      s.requireStep c (s.require c.lookup depth) := rfl

theorem requireStep_run (next : TypeName → String → Compile Unit) :
    StateT.run (s.requireStep c next name location) pending =
      if c.knows pending name then .ok ((), pending)
      else (do
        let node ← s.lower name location
        let compiled ← StateT.run (m := Except CompileError)
          (node.compile (s.resolve c.lookup next) true name.text)
          (Table.insert name ⟨node.nullable, none⟩ pending)
        .ok ((), Table.insert name ⟨node.nullable, some compiled.1⟩ compiled.2)) := by
  rw [requireStep, StateT.run_bind, isKnown_run]
  change StateT.run (m := Except CompileError)
    (if c.knows pending name then pure () else _) pending = _
  cases c.knows pending name with
  | true => rfl
  | false => cases s.lower name location <;> rfl

theorem resolve_run (require : TypeName → String → Compile Unit) :
    StateT.run (s.resolve c.lookup require name location) pending =
      if s.isExcluded name then .ok ((.accept name, false), pending)
      else (do
        let required ← StateT.run (m := Except CompileError) (require name location) pending
        .ok ((.named name, c.nullability required.2 name), required.2)) := by
  unfold resolve
  cases s.isExcluded name with
  | true => rfl
  | false =>
    simp only [Bool.false_eq_true, if_false, StateT.run_bind]
    cases StateT.run (m := Except CompileError) (require name location) pending with
    | error e => rfl
    | ok required =>
      change (StateT.run (isNullable (m := Compile) c.lookup name) required.2 >>= _) = _
      rw [isNullable_run]
      rfl

end Runs

section Undiscovered

variable {s : Store} {c : Cache} {pending after : PendingTable} {name : TypeName}

/-- The defined types that a pass has not come across. -/
def undiscovered (s : Store) (c : Cache) (pending : PendingTable) : Finset TypeName :=
  s.document.names.toFinset.filter fun name => c.knows pending name = false

theorem mem_undiscovered_iff :
    name ∈ s.undiscovered c pending ↔
      (∃ d, s.definition? name = some d) ∧ c.knows pending name = false := by
  rw [undiscovered, Finset.mem_filter, List.mem_toFinset, Document.names, Table.mem_keys_iff,
    Table.contains_iff]
  rfl

theorem card_undiscovered_le : (s.undiscovered c pending).card ≤ s.depthLimit := by
  have hfilter := Finset.card_filter_le s.document.names.toFinset
    (fun name => c.knows pending name = false)
  have hnames := List.toFinset_card_le s.document.names
  have hsize : s.document.names.length = s.depthLimit := List.length_map _
  unfold undiscovered
  omega

theorem undiscovered_subset
    (hknown : ∀ name, c.knows pending name = true → c.knows after name = true) :
    s.undiscovered c after ⊆ s.undiscovered c pending := by
  intro name hname
  rw [mem_undiscovered_iff] at hname ⊢
  refine ⟨hname.1, ?_⟩
  cases hk : c.knows pending name with
  | false => rfl
  | true => rw [hknown name hk] at hname; cases hname.2

/-- A type that becomes known is one less to discover. -/
theorem card_undiscovered_lt {node : Node}
    (hknown : ∀ name, c.knows pending name = true → c.knows after name = true)
    (hlowers : s.Lowers name node) (hbefore : c.knows pending name = false)
    (hafter : c.knows after name = true) :
    (s.undiscovered c after).card < (s.undiscovered c pending).card := by
  refine Finset.card_lt_card (Finset.ssubset_iff_of_subset (undiscovered_subset hknown) |>.mpr ?_)
  refine ⟨name, mem_undiscovered_iff.mpr ⟨hlowers.definition, hbefore⟩, fun hmem => ?_⟩
  rw [(mem_undiscovered_iff.mp hmem).2] at hafter
  cases hafter

end Undiscovered

end Store

namespace Cache

variable {s : Store} {c : Cache} {pending middle after : PendingTable} {name : TypeName} {p : Pending}

theorem knows_iff : c.knows pending name = true ↔
    (∃ p, Table.get? name pending = some p) ∨ ∃ v, c.get? name = some v := by
  rw [knows, Bool.or_eq_true, Table.contains_iff, contains, Table.contains_iff]
  rfl

theorem knows_insert {other : TypeName} :
    c.knows (Table.insert name p pending) other = true ↔
      other = name ∨ c.knows pending other = true := by
  rw [knows_iff, knows_iff, Table.get?_insert]
  by_cases h : other = name <;> simp [h]

/-- The validator that a node compiles to when told which types are nullable. -/
def IsIdeal (s : Store) (nullable : TypeName → Bool) (name : TypeName) (v : Validator) : Prop :=
  ∃ node noted, s.Lowers name node ∧
    StateT.run (node.compile (s.ideal nullable) true name.text) [] = .ok (v, noted)

/-- What holds of the pending types at every moment of a pass. -/
structure Pass (s : Store) (c : Cache) (pending : PendingTable) : Prop where
  ordered : Table.Ordered pending
  fresh : ∀ {name p}, Table.get? name pending = some p → c.get? name = none
  validated : ∀ {name p}, Table.get? name pending = some p → s.isExcluded name = false
  nullable : ∀ {name p}, Table.get? name pending = some p → p.nullable = s.ownNullable name

/-- What a pass does to the pending types: it adds allowed types, and each with all it needs. -/
structure Grows (s : Store) (c : Cache) (allowed : TypeName → Prop)
    (pending after : PendingTable) : Prop where
  keeps : ∀ {name p}, Table.get? name pending = some p → Table.get? name after = some p
  allows : ∀ {name p}, Table.get? name after = some p → Table.get? name pending = none →
    allowed name
  compiles : ∀ {name p}, Table.get? name after = some p → Table.get? name pending = none →
    ∃ v, p.validator = some v ∧ IsIdeal s (c.inherited · s) name v
  closes : ∀ {name p}, Table.get? name after = some p → Table.get? name pending = none →
    ∀ other, s.Edge name other → c.knows after other = true

theorem Pass.empty (s : Store) (c : Cache) : Pass s c [] where
  ordered := List.Pairwise.nil
  fresh h := by cases h
  validated h := by cases h
  nullable h := by cases h

theorem Pass.nullability (hpass : Pass s c pending) (hknown : c.knows pending name = true) :
    c.nullability pending name = c.inherited name s := by
  unfold Cache.nullability Cache.inherited
  cases hget : Table.get? name pending with
  | some p =>
    rw [hpass.fresh hget]
    exact hpass.nullable hget
  | none =>
    obtain ⟨p, hp⟩ | ⟨v, hv⟩ := knows_iff.mp hknown
    · rw [hget] at hp
      cases hp
    · rw [hv]

theorem Pass.insert (hpass : Pass s c pending) (hcache : c.get? name = none)
    (hvalidated : s.isExcluded name = false) (hnullable : p.nullable = s.ownNullable name) :
    Pass s c (Table.insert name p pending) where
  ordered := hpass.ordered.insert name p
  fresh {other q} h := by
    rw [Table.get?_insert] at h
    split at h
    · next heq => rw [heq]; exact hcache
    · exact hpass.fresh h
  validated {other q} h := by
    rw [Table.get?_insert] at h
    split at h
    · next heq => rw [heq]; exact hvalidated
    · exact hpass.validated h
  nullable {other q} h := by
    rw [Table.get?_insert] at h
    split at h
    · next heq => cases h; rw [heq]; exact hnullable
    · exact hpass.nullable h

namespace Grows

variable {allowed : TypeName → Prop}

theorem refl : Grows s c allowed pending pending where
  keeps h := h
  allows h hnone := by rw [hnone] at h; cases h
  compiles h hnone := by rw [hnone] at h; cases h
  closes h hnone := by rw [hnone] at h; cases h

theorem knows (hgrows : Grows s c allowed pending after) (h : c.knows pending name = true) :
    c.knows after name = true := by
  rw [knows_iff] at h ⊢
  exact h.imp_left fun ⟨p, hp⟩ => ⟨p, hgrows.keeps hp⟩

/-- A type that two passes add between them is added by the first or by the second. -/
theorem split (hsecond : Grows s c allowed middle after) (h : Table.get? name after = some p) :
    Table.get? name middle = some p ∨ Table.get? name middle = none := by
  cases hmiddle : Table.get? name middle with
  | none => exact Or.inr rfl
  | some q =>
    have heq := (hsecond.keeps hmiddle).symm.trans h
    exact Or.inl (by rw [heq])

theorem trans (hfirst : Grows s c allowed pending middle)
    (hsecond : Grows s c allowed middle after) :
    Grows s c allowed pending after where
  keeps h := hsecond.keeps (hfirst.keeps h)
  allows h hnone := by
    rcases hsecond.split h with hmiddle | hmiddle
    · exact hfirst.allows hmiddle hnone
    · exact hsecond.allows h hmiddle
  compiles h hnone := by
    rcases hsecond.split h with hmiddle | hmiddle
    · exact hfirst.compiles hmiddle hnone
    · exact hsecond.compiles h hmiddle
  closes h hnone other hedge := by
    rcases hsecond.split h with hmiddle | hmiddle
    · exact hsecond.knows (hfirst.closes hmiddle hnone other hedge)
    · exact hsecond.closes h hmiddle other hedge

/-- A type taken up before a pass, and compiled once the pass has added all it needs. -/
theorem finish {q : Pending} (hgrows : Grows s c allowed (Table.insert name p pending) after)
    (hfresh : Table.get? name pending = none) (hallowed : allowed name)
    (hideal : ∃ v, q.validator = some v ∧ IsIdeal s (c.inherited · s) name v)
    (hedges : ∀ other, s.Edge name other → c.knows after other = true) :
    Grows s c allowed pending (Table.insert name q after) := by
  have hne : ∀ {other r}, Table.get? other pending = some r → other ≠ name := by
    intro other r hget heq
    rw [heq, hfresh] at hget
    cases hget
  have hadded : ∀ {other r}, Table.get? other (Table.insert name q after) = some r →
      Table.get? other pending = none → other = name ∧ r = q ∨
        Table.get? other after = some r ∧ Table.get? other (Table.insert name p pending) = none := by
    intro other r hget hnone
    rw [Table.get?_insert] at hget
    split at hget
    · next heq => cases hget; exact Or.inl ⟨heq, rfl⟩
    · next heq => exact Or.inr ⟨hget, by rw [Table.get?_insert_of_ne heq, hnone]⟩
  constructor
  case keeps =>
    intro other r hget
    rw [Table.get?_insert_of_ne (hne hget)]
    refine hgrows.keeps ?_
    rw [Table.get?_insert_of_ne (hne hget), hget]
  case allows =>
    intro other r hget hnone
    rcases hadded hget hnone with ⟨rfl, rfl⟩ | ⟨hafter, hbefore⟩
    · exact hallowed
    · exact hgrows.allows hafter hbefore
  case compiles =>
    intro other r hget hnone
    rcases hadded hget hnone with ⟨rfl, rfl⟩ | ⟨hafter, hbefore⟩
    · exact hideal
    · exact hgrows.compiles hafter hbefore
  case closes =>
    intro other r hget hnone last hedge
    refine knows_insert.mpr (Or.inr ?_)
    rcases hadded hget hnone with ⟨rfl, rfl⟩ | ⟨hafter, hbefore⟩
    · exact hedges last hedge
    · exact hgrows.closes hafter hbefore last hedge

end Grows

section Pass

variable (s : Store) (c : Cache) (allowed : TypeName → Prop)

/-- Some type that the pass may meet is not sound. -/
def Broken : Prop := ∃ name, allowed name ∧ ¬ s.IsSound name

/--
How a step of a pass and its ideal end: with the same value, the table grown
and every noted type known, or else with a failure that some type is to blame for.
-/
def Ends {α : Type} (pending : PendingTable) :
    Except CompileError (α × PendingTable) → Except CompileError (α × List TypeName) → Prop
  | .ok (a, after), .ok (b, noted) =>
    a = b ∧ Pass s c after ∧ Grows s c allowed pending after ∧
      ∀ name ∈ noted, c.knows after name = true
  | .ok _, .error _ => False
  | .error _, .ok _ => Broken s allowed
  | .error _, .error _ => True

/-- A compilation follows its ideal wherever no more types than the depth are undiscovered. -/
def followsIdeal (depth : Nat) : Simulation Compile Ideal where
  rel x y := ∀ pending noted, Pass s c pending → (s.undiscovered c pending).card ≤ depth →
    (∀ name ∈ noted, c.knows pending name = true) →
    Ends s c allowed pending (StateT.run x pending) (StateT.run y noted)
  pure a pending noted hpass hdepth hnoted := ⟨rfl, hpass, Grows.refl, hnoted⟩
  bind {α β x y f g} hxy hfg pending noted hpass hdepth hnoted := by
    have hx := hxy pending noted hpass hdepth hnoted
    rw [StateT.run_bind, StateT.run_bind]
    cases hrunx : StateT.run x pending with
    | error e =>
      cases hruny : StateT.run y noted with
      | error e' => exact trivial
      | ok b =>
        rw [hrunx, hruny] at hx
        cases hrung : StateT.run (g b.1) b.2 with
        | error e' => simp only [bind, Except.bind, hrung]; exact trivial
        | ok last => simp only [bind, Except.bind, hrung]; exact hx
    | ok a =>
      cases hruny : StateT.run y noted with
      | error e' => rw [hrunx, hruny] at hx; exact hx.elim
      | ok b =>
        rw [hrunx, hruny] at hx
        obtain ⟨heq, hpass', hgrows, hnoted'⟩ := hx
        have hdepth' : (s.undiscovered c a.2).card ≤ depth :=
          (Finset.card_le_card (Store.undiscovered_subset fun _ => hgrows.knows)).trans hdepth
        have hnext := hfg a.1 a.2 b.2 hpass' hdepth' hnoted'
        simp only [bind, Except.bind]
        rw [← heq]
        cases hrunf : StateT.run (f a.1) a.2 with
        | error e =>
          cases hrung : StateT.run (g a.1) b.2 with
          | error e' => exact trivial
          | ok last => rw [hrunf, hrung] at hnext; exact hnext
        | ok last =>
          cases hrung : StateT.run (g a.1) b.2 with
          | error e' => rw [hrunf, hrung] at hnext; exact hnext.elim
          | ok last' =>
            rw [hrunf, hrung] at hnext
            obtain ⟨hvalue, hlast, hmore, hknown⟩ := hnext
            exact ⟨hvalue, hlast, hgrows.trans hmore, hknown⟩

theorem followsIdeal_keepsFailure (depth : Nat) : (followsIdeal s c allowed depth).KeepsFailure :=
  fun _ _ _ _ _ _ => trivial

/-- What requiring a type does: it becomes known, or some type is to blame. -/
def Provides (name : TypeName) (pending : PendingTable) :
    Except CompileError (Unit × PendingTable) → Prop
  | .ok (_, after) =>
    Pass s c after ∧ Grows s c allowed pending after ∧ c.knows after name = true
  | .error _ => Broken s allowed

variable {s c allowed} {depth : Nat} {require : TypeName → String → Compile Unit}

theorem resolve_follows {location : String}
    (hrequire : ∀ pending, Pass s c pending → (s.undiscovered c pending).card ≤ depth →
      s.isExcluded name = false →
      Provides s c allowed name pending (StateT.run (require name location) pending)) :
    (followsIdeal s c allowed depth).rel (s.resolve c.lookup require name location)
      (s.ideal (c.inherited · s) name location) := by
  intro pending noted hpass hdepth hnoted
  rw [Store.resolve_run]
  unfold Store.ideal
  cases hexcluded : s.isExcluded name with
  | true => exact ⟨rfl, hpass, Grows.refl, hnoted⟩
  | false =>
    have hprovides := hrequire pending hpass hdepth hexcluded
    simp only [Bool.false_eq_true, if_false]
    cases hrun : StateT.run (require name location) pending with
    | error e =>
      rw [hrun] at hprovides
      exact hprovides
    | ok required =>
      rw [hrun] at hprovides
      obtain ⟨hpass', hgrows, hknown⟩ := hprovides
      refine ⟨by rw [hpass'.nullability hknown], hpass', hgrows, fun other hother => ?_⟩
      rcases List.mem_append.mp hother with hother | hother
      · exact hgrows.knows (hnoted other hother)
      · rw [List.mem_singleton.mp hother]
        exact hknown

/-- What the compilation of a node does once every reference can be required. -/
theorem compile_ends {node : Node} (required : Bool) (location : String)
    (hrequire : ∀ name ∈ node.references, ∀ location pending, Pass s c pending →
      (s.undiscovered c pending).card ≤ depth → s.isExcluded name = false →
      Provides s c allowed name pending (StateT.run (require name location) pending))
    (hpass : Pass s c pending) (hdepth : (s.undiscovered c pending).card ≤ depth) :
    Ends s c allowed pending
      (StateT.run (node.compile (s.resolve c.lookup require) required location) pending)
      (StateT.run (node.compile (s.ideal (c.inherited · s)) required location) []) := by
  have hfollows := Node.compile_simulated (followsIdeal_keepsFailure s c allowed depth) node
    (fun name hname location => resolve_follows (hrequire name hname location)) required location
  exact hfollows pending [] hpass hdepth (fun _ h => absurd h List.not_mem_nil)

theorem ideal_reads {node : Node} {required : Bool} {location : String} {nullable : TypeName → Bool}
    {v : Validator} {noted : List TypeName}
    (hrun : StateT.run (node.compile (s.ideal nullable) required location) [] = .ok (v, noted)) :
    node.PatternsRead ∧ noted = s.unexcluded node.references ∧
      v.calls = s.unexcluded node.references ∧ v.nullable = node.admitsNull s nullable := by
  have hnotes := node.ideal_notes s nullable required location
  by_cases hread : node.PatternsRead
  · obtain ⟨w, hw, hok⟩ := hnotes.succeeds hread
    have heq := hrun.symm.trans (hok [])
    cases heq
    exact ⟨hread, rfl, hw⟩
  · obtain ⟨e, hfail⟩ := hnotes.fails hread []
    rw [hrun] at hfail
    cases hfail

/-- A type whose node has been compiled is provided. -/
theorem Ends.provides {node : Node} {run : Except CompileError (Validator × PendingTable)}
    (hends : Ends s c allowed (Table.insert name ⟨node.nullable, none⟩ pending) run
      (StateT.run (node.compile (s.ideal (c.inherited · s)) true name.text) []))
    (hlowers : s.Lowers name node) (hallowed : allowed name) (hcache : c.get? name = none)
    (hfresh : Table.get? name pending = none) (hvalidated : s.isExcluded name = false) :
    Provides s c allowed name pending (do
      let compiled ← run
      .ok ((), Table.insert name ⟨node.nullable, some compiled.1⟩ compiled.2)) := by
  cases hideal : StateT.run (node.compile (s.ideal (c.inherited · s)) true name.text) [] with
  | error e =>
    cases run with
    | ok last => rw [hideal] at hends; exact hends.elim
    | error e' =>
      refine ⟨name, hallowed, fun ⟨node', hlowers', hread⟩ => ?_⟩
      rw [← hlowers.unique hlowers'] at hread
      obtain ⟨v, -, hok⟩ := (node.ideal_notes s (c.inherited · s) true name.text).succeeds hread
      rw [hok []] at hideal
      cases hideal
  | ok ideal =>
    rw [hideal] at hends
    cases run with
    | error e => exact hends
    | ok last =>
      obtain ⟨v, after⟩ := last
      obtain ⟨rfl, hpass, hgrows, hnoted⟩ := hends
      obtain ⟨-, hnames, -, -⟩ := ideal_reads hideal
      refine ⟨hpass.insert hcache hvalidated hlowers.ownNullable.symm, ?_,
        knows_insert.mpr (Or.inl rfl)⟩
      have hedges : ∀ other, s.Edge name other → c.knows after other = true := by
        intro other hedge
        rw [hlowers.edge_iff] at hedge
        refine hnoted other ?_
        rw [hnames]
        exact List.mem_filter.mpr ⟨hedge.1, by rw [hedge.2]; rfl⟩
      exact hgrows.finish hfresh hallowed ⟨ideal.1, rfl, node, ideal.2, hlowers, hideal⟩ hedges

theorem require_provides (hclosed : ∀ name other, allowed name → s.Edge name other → allowed other)
    (depth : Nat) : ∀ name location pending, allowed name → s.isExcluded name = false →
      Pass s c pending → (s.undiscovered c pending).card ≤ depth →
      Provides s c allowed name pending
        (StateT.run (s.require c.lookup depth name location) pending) := by
  induction depth with
  | zero =>
    intro name location pending hallowed hvalidated hpass hdepth
    rw [Store.require_zero_run]
    cases hknown : c.knows pending name with
    | true => exact ⟨hpass, Grows.refl, hknown⟩
    | false =>
      -- nothing is left to discover, so a name that is not known has no definition
      refine ⟨name, hallowed, fun ⟨node, hlowers, _⟩ => ?_⟩
      have hmem := Store.mem_undiscovered_iff.mpr ⟨hlowers.definition, hknown⟩
      have hpos := Finset.card_pos.mpr ⟨name, hmem⟩
      omega
  | succ depth ih =>
    intro name location pending hallowed hvalidated hpass hdepth
    rw [Store.require_succ, Store.requireStep_run]
    cases hknown : c.knows pending name with
    | true => exact ⟨hpass, Grows.refl, hknown⟩
    | false =>
      simp only [Bool.false_eq_true, if_false]
      cases hlower : s.lower name location with
      | error e =>
        refine ⟨name, hallowed, fun ⟨node, hlowers, _⟩ => ?_⟩
        rw [Store.lower_eq_ok_iff.mpr hlowers] at hlower
        cases hlower
      | ok node =>
        have hlowers : s.Lowers name node := Store.lower_eq_ok_iff.mp hlower
        have hfresh : c.get? name = none ∧ Table.get? name pending = none := by
          rw [← Bool.not_eq_true, knows_iff, not_or, not_exists, not_exists] at hknown
          exact ⟨Option.eq_none_iff_forall_ne_some.mpr hknown.2,
            Option.eq_none_iff_forall_ne_some.mpr hknown.1⟩
        have hstart := hpass.insert (p := ⟨node.nullable, none⟩) hfresh.1 hvalidated
          hlowers.ownNullable.symm
        have hmore : ∀ other, c.knows pending other = true →
            c.knows (Table.insert name ⟨node.nullable, none⟩ pending) other = true :=
          fun other h => knows_insert.mpr (Or.inr h)
        have hless := Store.card_undiscovered_lt hmore hlowers hknown (knows_insert.mpr (Or.inl rfl))
        have hneeded : ∀ other ∈ node.references, ∀ location pending, Pass s c pending →
            (s.undiscovered c pending).card ≤ depth → s.isExcluded other = false →
            Provides s c allowed other pending
              (StateT.run (s.require c.lookup depth other location) pending) :=
          fun other hother location pending hpass hdepth hvalidated =>
            ih other location pending (hclosed name other hallowed
              (hlowers.edge_iff.mpr ⟨hother, hvalidated⟩)) hvalidated hpass hdepth
        have hends := compile_ends true name.text hneeded hstart (by omega)
        exact hends.provides hlowers hallowed hfresh.1 hfresh.2 hvalidated

end Pass

end Cache

end Conform
