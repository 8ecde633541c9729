import Conform.Proofs.References

/-!
# Simulations

A compilation meets the world only where it resolves a reference, and a check
only where it hops to a named type. Two runs of either, even in different
monads, therefore come to the same value if their references or hops do.
-/

namespace Conform

/-- A computation that succeeds does so in each of its steps. -/
theorem exists_ok_of_bind {ε α β : Type} {x : Except ε α} {f : α → Except ε β} {b : β}
    (h : (x >>= f) = .ok b) : ∃ a, x = .ok a ∧ f a = .ok b := by
  cases x with
  | error e => cases h
  | ok a => exact ⟨a, rfl, h⟩

/-- A fold that succeeds takes the step of each of its items. -/
theorem exists_step_of_foldlM {ε α β : Type} {f : β → α → Except ε β} {items : List α}
    {b last : β} (h : items.foldlM f b = .ok last) :
    ∀ a ∈ items, ∃ before after, f before a = .ok after := by
  induction items generalizing b with
  | nil => exact nofun
  | cons a rest ih =>
    rw [List.foldlM_cons] at h
    obtain ⟨next, hstep, hrest⟩ := exists_ok_of_bind h
    exact List.forall_mem_cons.mpr ⟨⟨b, next, hstep⟩, ih hrest⟩

/-- A way to say that computations of two monads come to the same value. -/
structure Simulation (m n : Type → Type) [Monad m] [Monad n] where
  rel : {α : Type} → m α → n α → Prop
  pure {α : Type} (a : α) : rel (pure a : m α) (pure a : n α)
  bind {α β : Type} {x : m α} {y : n α} {f : α → m β} {g : α → n β} :
    rel x y → (∀ a, rel (f a) (g a)) → rel (x >>= f) (y >>= g)

variable {m n : Type → Type} [Monad m] [Monad n] (σ : Simulation m n)

section Compilation

variable [MonadExceptOf CompileError m] [MonadExceptOf CompileError n]

/-- Failures of one run are failures of the other. -/
def Simulation.KeepsFailure : Prop :=
  ∀ {α : Type} (e : CompileError), σ.rel (throw e : m α) (throw e : n α)

variable {σ} {resolve : Resolve m} {resolve' : Resolve n}

theorem Simulation.KeepsFailure.ofExcept (hfail : σ.KeepsFailure) {α : Type}
    (x : Except CompileError α) :
    σ.rel (MonadExcept.ofExcept x : m α) (MonadExcept.ofExcept x : n α) := by
  cases x with
  | ok a => exact σ.pure a
  | error e => exact hfail e

mutual

theorem Node.compile_simulated (hfail : σ.KeepsFailure) : (node : Node) →
    (∀ name ∈ node.references, ∀ location,
      σ.rel (resolve name location) (resolve' name location)) →
    ∀ required location,
      σ.rel (node.compile resolve required location) (node.compile resolve' required location)
  | ⟨shape, nullable, pinned⟩, href, required, location => by
    unfold Node.compile
    exact σ.bind (NodeShape.compile_simulated hfail shape href location) fun _ => σ.pure _

theorem NodeShape.compile_simulated (hfail : σ.KeepsFailure) : (shape : NodeShape) →
    (∀ name ∈ shape.references, ∀ location,
      σ.rel (resolve name location) (resolve' name location)) →
    ∀ location, σ.rel (shape.compile resolve location) (shape.compile resolve' location)
  | .primitive p, _, location => by
    unfold NodeShape.compile
    exact σ.bind (hfail.ofExcept _) fun _ => σ.pure _
  | .enum values, _, location => by
    unfold NodeShape.compile
    exact σ.pure _
  | .union branches, href, location => by
    unfold NodeShape.compile
    exact σ.bind (Node.compileBranches_simulated hfail branches href 0 location) fun _ => σ.pure _
  | .array element low high, href, location => by
    unfold NodeShape.compile
    exact σ.bind (Node.compile_simulated hfail element href true _) fun _ => σ.pure _
  | .object fields, href, location => by
    unfold NodeShape.compile
    exact σ.bind (Node.compileFields_simulated hfail fields href location) fun _ => σ.pure _
  | .reference name, href, location => by
    unfold NodeShape.compile
    exact href name (List.mem_singleton_self name) location

theorem Node.compileBranches_simulated (hfail : σ.KeepsFailure) : (branches : List Node) →
    (∀ name ∈ Node.branchReferences branches, ∀ location,
      σ.rel (resolve name location) (resolve' name location)) →
    ∀ i location, σ.rel (Node.compileBranches resolve i branches location)
      (Node.compileBranches resolve' i branches location)
  | [], _, i, location => by
    unfold Node.compileBranches
    exact σ.pure _
  | branch :: rest, href, i, location => by
    unfold Node.compileBranches
    have hbranch := Node.compile_simulated hfail branch
      (fun name hname => href name (List.mem_append_left _ hname))
    have hrest := Node.compileBranches_simulated hfail rest
      (fun name hname => href name (List.mem_append_right _ hname))
    exact σ.bind (hbranch true _) fun _ => σ.bind (hrest (i + 1) location) fun _ => σ.pure _

theorem Node.compileFields_simulated (hfail : σ.KeepsFailure) :
    (fields : List (String × NodeField)) →
    (∀ name ∈ Node.fieldReferences fields, ∀ location,
      σ.rel (resolve name location) (resolve' name location)) →
    ∀ location, σ.rel (Node.compileFields resolve fields location)
      (Node.compileFields resolve' fields location)
  | [], _, location => by
    unfold Node.compileFields
    exact σ.pure _
  | (name, ⟨required, node⟩) :: rest, href, location => by
    unfold Node.compileFields
    have hnode := Node.compile_simulated hfail node
      (fun name hname => href name (List.mem_append_left _ hname))
    have hrest := Node.compileFields_simulated hfail rest
      (fun name hname => href name (List.mem_append_right _ hname))
    exact σ.bind (hnode required _) fun _ => σ.bind (hrest location) fun _ => σ.pure _

end

end Compilation

namespace Json

/-- The value itself, or one that is nested less deeply. -/
def Within (part whole : Json) : Prop := part = whole ∨ part.depth < whole.depth

theorem Within.refl (v : Json) : v.Within v := Or.inl rfl

theorem Within.trans {a b c : Json} (hab : a.Within b) (hbc : b.Within c) : a.Within c := by
  rcases hab with rfl | hab
  · exact hbc
  · rcases hbc with rfl | hbc
    · exact Or.inr hab
    · exact Or.inr (Nat.lt_trans hab hbc)

theorem depth_le_depthItems {item : Json} {items : List Json} (hmem : item ∈ items) :
    item.depth ≤ depthItems items := by
  induction items with
  | nil => cases hmem
  | cons head rest ih =>
    unfold depthItems
    rcases List.mem_cons.mp hmem with rfl | hmem
    · exact Nat.le_max_left _ _
    · exact Nat.le_trans (ih hmem) (Nat.le_max_right _ _)

theorem depthItems_le {items : List Json} {n : Nat} (h : ∀ item ∈ items, item.depth ≤ n) :
    depthItems items ≤ n := by
  induction items with
  | nil => exact Nat.zero_le n
  | cons v rest ih =>
    obtain ⟨hv, hrest⟩ := List.forall_mem_cons.mp h
    exact Nat.max_le.mpr ⟨hv, ih hrest⟩

theorem depth_le_depthFields {name : String} {v : Json} {fields : List (String × Json)}
    (hget : Table.get? name fields = some v) : v.depth ≤ depthFields fields := by
  induction fields with
  | nil => cases hget
  | cons entry rest ih =>
    obtain ⟨key, value⟩ := entry
    unfold depthFields
    rw [Table.get?_cons] at hget
    split at hget
    · cases hget
      exact Nat.le_max_left _ _
    · exact Nat.le_trans (ih hget) (Nat.le_max_right _ _)

theorem depth_lt_arr {item : Json} {items : List Json} (hmem : item ∈ items) :
    item.depth < (arr items).depth := by
  rw [show (arr items).depth = depthItems items + 1 by unfold depth; rfl]
  exact Nat.lt_succ_of_le (depth_le_depthItems hmem)

theorem depth_lt_obj {name : String} {v : Json} {fields : List (String × Json)}
    (hget : Table.get? name fields = some v) : v.depth < (obj fields).depth := by
  rw [show (obj fields).depth = depthFields fields + 1 by unfold depth; rfl]
  exact Nat.lt_succ_of_le (depth_le_depthFields hget)

theorem within_obj {name : String} {v : Json} {fields : List (String × Json)}
    (hget : Table.get? name fields = some v) : v.Within (obj fields) := Or.inr (depth_lt_obj hget)

end Json

namespace Check

/-- An array rule goes down into the value, or checks a scalar once more. -/
theorem items_below {encoded : Bool} {v item : Json} {items : List Json}
    (hitems : items? encoded v = some items) (hmem : item ∈ items) :
    item.depth < v.depth ∨ encoded = true ∧ item = v := by
  cases v with
  | arr given =>
    cases hitems
    exact Or.inl (Json.depth_lt_arr hmem)
  | obj fields => cases hitems
  | _ =>
    cases encoded with
    | false => cases hitems
    | true =>
      cases hitems
      exact Or.inr ⟨rfl, List.mem_singleton.mp hmem⟩

theorem within_items {encoded : Bool} {v item : Json} {items : List Json}
    (hitems : items? encoded v = some items) (hmem : item ∈ items) : item.Within v := by
  rcases items_below hitems hmem with hless | ⟨-, rfl⟩
  · exact Or.inr hless
  · exact Json.Within.refl item

theorem eq_of_present {encoded : Bool} {found : Option Json} {v : Json}
    (hpresent : present encoded found = some v) : found = some v := by
  unfold present at hpresent
  split at hpresent
  · split at hpresent
    · cases hpresent
    · exact hpresent
  · exact hpresent

theorem elements_simulated {check : FieldPath → Json → m Outcome}
    {check' : FieldPath → Json → n Outcome} {items : List Json}
    (h : ∀ item ∈ items, ∀ path, σ.rel (check path item) (check' path item)) (path : FieldPath)
    (i : Nat) : σ.rel (elements check path i items) (elements check' path i items) := by
  induction items generalizing i with
  | nil => exact σ.pure _
  | cons item rest ih =>
    have hhead := h item List.mem_cons_self (path.push (.index i))
    have hrest := ih (fun other hother => h other (List.mem_cons_of_mem _ hother)) (i + 1)
    exact σ.bind hhead fun _ => σ.bind hrest fun _ => σ.pure _

end Check

/-- Hops to any of the names, for a value or what lies below it, come to the same. -/
def Simulation.Hops (hop : Hop m) (hop' : Hop n) (names : List TypeName) (v : Json) : Prop :=
  ∀ name ∈ names, ∀ path part, part.Within v → σ.rel (hop name path part) (hop' name path part)

section Checking

variable {σ} {hop : Hop m} {hop' : Hop n} {names more : List TypeName} {v w : Json}

theorem Simulation.Hops.left (h : σ.Hops hop hop' (names ++ more) v) : σ.Hops hop hop' names v :=
  fun name hname => h name (List.mem_append_left _ hname)

theorem Simulation.Hops.right (h : σ.Hops hop hop' (names ++ more) v) : σ.Hops hop hop' more v :=
  fun name hname => h name (List.mem_append_right _ hname)

theorem Simulation.Hops.below (h : σ.Hops hop hop' names v) (hw : w.Within v) :
    σ.Hops hop hop' names w :=
  fun name hname path part hpart => h name hname path part (hpart.trans hw)

mutual

theorem Validator.apply_simulated (encoded : Bool) : (validator : Validator) →
    (found : Option Json) → (∀ v ∈ found, σ.Hops hop hop' validator.calls v) →
    ∀ path, σ.rel (validator.apply hop encoded path found) (validator.apply hop' encoded path found)
  | ⟨required, nullable, rule⟩, found, h, path => by
    unfold Validator.apply
    split
    · exact σ.pure _
    · exact σ.pure _
    · next v _ hpresent =>
      exact Rule.check_simulated encoded rule v (h v (Check.eq_of_present hpresent)) path

theorem Rule.check_simulated (encoded : Bool) : (rule : Rule) → (v : Json) →
    σ.Hops hop hop' rule.calls v →
    ∀ path, σ.rel (rule.check hop encoded path v) (rule.check hop' encoded path v)
  | .accept _, v, _, path => by unfold Rule.check; exact σ.pure _
  | .string r, v, _, path => by unfold Rule.check; exact σ.pure _
  | .number r, v, _, path => by unfold Rule.check; exact σ.pure _
  | .boolean, v, _, path => by unfold Rule.check; exact σ.pure _
  | .enum values, v, _, path => by unfold Rule.check; exact σ.pure _
  | .union branches, v, h, path => by
    unfold Rule.check
    refine σ.bind (Rule.firstAccepted_simulated encoded branches v h path) fun accepted => ?_
    cases accepted with
    | some outcome => exact σ.pure _
    | none => exact σ.pure _
  | .array element low high, v, h, path => by
    unfold Rule.check
    split
    · exact σ.pure _
    · next items hitems =>
      refine σ.bind (Check.elements_simulated σ (fun item hitem path => ?_) path 0)
        fun _ => σ.pure _
      refine Validator.apply_simulated encoded element (some item) (fun v' hv' => ?_) path
      cases hv'
      exact h.below (Check.within_items hitems hitem)
  | .object fields, v, h, path => by
    unfold Rule.check
    split
    · next given =>
      exact σ.bind (Rule.checkFields_simulated encoded fields given h path given) fun _ => σ.pure _
    · exact σ.pure _
  | .named name, v, h, path => by
    unfold Rule.check
    exact h name (List.mem_singleton_self name) path v (Json.Within.refl v)

theorem Rule.firstAccepted_simulated (encoded : Bool) : (branches : List Validator) → (v : Json) →
    σ.Hops hop hop' (Validator.branchCalls branches) v →
    ∀ path, σ.rel (Rule.firstAccepted hop encoded branches path v)
      (Rule.firstAccepted hop' encoded branches path v)
  | [], v, _, path => by unfold Rule.firstAccepted; exact σ.pure _
  | branch :: rest, v, h, path => by
    unfold Rule.firstAccepted
    have hbranch := Validator.apply_simulated encoded branch (some v)
      (fun w hw => by cases hw; exact h.left) path
    refine σ.bind hbranch fun outcome => ?_
    split
    · exact σ.pure _
    · exact Rule.firstAccepted_simulated encoded rest v h.right path

theorem Rule.checkFields_simulated (encoded : Bool) : (fields : List (String × Validator)) →
    (given : List (String × Json)) → σ.Hops hop hop' (Validator.fieldCalls fields) (.obj given) →
    ∀ path output, σ.rel (Rule.checkFields hop encoded fields path given output)
      (Rule.checkFields hop' encoded fields path given output)
  | [], given, _, path, output => by unfold Rule.checkFields; exact σ.pure _
  | (name, field) :: rest, given, h, path, output => by
    unfold Rule.checkFields
    have hfield := Validator.apply_simulated encoded field (Table.get? name given)
      (fun w hw => h.left.below (Json.within_obj hw)) (path.push (.key name))
    refine σ.bind hfield fun outcome => ?_
    exact σ.bind (Rule.checkFields_simulated encoded rest given h.right path _) fun _ => σ.pure _

end

end Checking

end Conform
