import Conform.Proofs.TypeGraph

/-!
# Ideal compilation

Compiling a node alone, every reference taken at its word. It succeeds exactly
where the patterns of the node can be read, and its validator calls the types
that the node refers to, excluded ones aside. What a real compilation adds is
measured against it.
-/

namespace Conform

/-- The monad of a compilation that only notes which types it would need. -/
abbrev Ideal := StateT (List TypeName) (Except CompileError)

/-- A computation that succeeds exactly where it should, and notes just these names. -/
structure Ideal.Notes {α : Type} (x : Ideal α) (good : Prop) (names : List TypeName)
    (holds : α → Prop) : Prop where
  succeeds : good → ∃ a, holds a ∧ ∀ noted, StateT.run x noted = .ok (a, noted ++ names)
  fails : ¬ good → ∀ noted, ∃ e, StateT.run x noted = .error e

namespace Ideal.Notes

variable {α β : Type} {x : Ideal α} {f : α → Ideal β} {good better : Prop}
  {names more : List TypeName} {holds : α → Prop} {also : β → Prop}

theorem pure {a : α} (ha : holds a) (hgood : good) : Notes (Pure.pure a) good [] holds where
  succeeds _ := ⟨a, ha, fun noted => by rw [List.append_nil]; rfl⟩
  fails hbad := absurd hgood hbad

theorem bind (hx : Notes x good names holds)
    (hf : ∀ a, holds a → Notes (f a) better more also) :
    Notes (x >>= f) (good ∧ better) (names ++ more) also where
  succeeds := by
    rintro ⟨hgood, hbetter⟩
    obtain ⟨a, ha, hrun⟩ := hx.succeeds hgood
    obtain ⟨b, hb, hnext⟩ := (hf a ha).succeeds hbetter
    refine ⟨b, hb, fun noted => ?_⟩
    rw [StateT.run_bind, hrun noted, ← List.append_assoc]
    exact hnext (noted ++ names)
  fails := by
    intro hbad noted
    rw [StateT.run_bind]
    by_cases hgood : good
    · obtain ⟨a, ha, hrun⟩ := hx.succeeds hgood
      rw [hrun noted]
      exact (hf a ha).fails (fun hbetter => hbad ⟨hgood, hbetter⟩) _
    · obtain ⟨e, hrun⟩ := hx.fails hgood noted
      exact ⟨e, by rw [hrun]; rfl⟩

theorem map (hx : Notes x good names holds) {g : α → β} (hg : ∀ a, holds a → also (g a)) :
    Notes (x >>= fun a => Pure.pure (g a)) good names also := by
  have h := hx.bind fun a ha => pure (hg a ha) trivial
  rw [and_true, List.append_nil] at h
  exact h

end Ideal.Notes

/-- A reference taken at its word: its type is noted, and is nullable as told. -/
def Store.ideal (s : Store) (inherited : TypeName → Bool) : Resolve Ideal := fun name _ =>
  if s.isExcluded name then pure (.accept name, false)
  else do
    modify (· ++ [name])
    pure (.named name, inherited name)

/-- The names that are not left unvalidated. -/
def Store.unexcluded (s : Store) (names : List TypeName) : List TypeName :=
  names.filter fun name => !s.isExcluded name

/-- Whether a shape is a reference to a nullable type. -/
def NodeShape.inherits (s : Store) (inherited : TypeName → Bool) : NodeShape → Bool
  | .reference name => !s.isExcluded name && inherited name
  | _ => false

/-- Whether the validator of a node is nullable, told which types are. -/
def Node.admitsNull (s : Store) (inherited : TypeName → Bool) (node : Node) : Bool :=
  node.nullable || (!node.pinned && node.shape.inherits s inherited)

theorem Primitive.rule_notes (p : Primitive) (location : String) :
    Ideal.Notes (MonadExcept.ofExcept (p.rule location))
      (∀ source ∈ p.patterns, (Pattern.readWhole? source).isSome = true) []
      (fun rule => rule.calls = []) := by
  obtain ⟨kind, format, minimum, maximum, minLength, maxLength, pattern⟩ := p
  cases kind with
  | string =>
    cases pattern with
    | none => exact Ideal.Notes.pure rfl (by simp [Primitive.patterns])
    | some source =>
      cases hread : Pattern.readWhole? source with
      | some expr =>
        simp only [Primitive.rule, hread]
        exact Ideal.Notes.pure rfl (by simp [Primitive.patterns, hread])
      | none =>
        simp only [Primitive.rule, hread]
        refine ⟨fun hgood => ?_, fun _ noted => ⟨_, rfl⟩⟩
        have hsome := hgood source (by simp [Primitive.patterns])
        rw [hread] at hsome
        cases hsome
  | _ => exact Ideal.Notes.pure rfl (by simp [Primitive.patterns])

section

variable (s : Store) (inherited : TypeName → Bool)

theorem Store.ideal_notes (name : TypeName) (location : String) {good : Prop} (hgood : good) :
    Ideal.Notes (s.ideal inherited name location) good (s.unexcluded [name])
      (fun answer => answer.1.calls = s.unexcluded [name] ∧
        answer.2 = (!s.isExcluded name && inherited name)) := by
  cases hexcluded : s.isExcluded name with
  | true =>
    have hnames : s.unexcluded [name] = [] := by simp [Store.unexcluded, hexcluded]
    rw [Store.ideal, if_pos hexcluded, hnames]
    exact Ideal.Notes.pure ⟨rfl, rfl⟩ hgood
  | false =>
    have hnames : s.unexcluded [name] = [name] := by simp [Store.unexcluded, hexcluded]
    rw [Store.ideal, if_neg (by simp [hexcluded]), hnames]
    exact ⟨fun _ => ⟨(.named name, inherited name), ⟨rfl, rfl⟩, fun _ => rfl⟩,
      fun hbad => absurd hgood hbad⟩

mutual

theorem Node.ideal_notes : (node : Node) → ∀ required location,
    Ideal.Notes (node.compile (s.ideal inherited) required location) node.PatternsRead
      (s.unexcluded node.references)
      (fun v => v.calls = s.unexcluded node.references ∧ v.nullable = node.admitsNull s inherited)
  | ⟨shape, nullable, pinned⟩, required, location => by
    unfold Node.compile
    refine (NodeShape.ideal_notes shape location).map fun answer hanswer => ?_
    exact ⟨hanswer.1, by rw [Node.admitsNull, ← hanswer.2]⟩

theorem NodeShape.ideal_notes : (shape : NodeShape) → ∀ location,
    Ideal.Notes (shape.compile (s.ideal inherited) location)
      (∀ source ∈ shape.patterns, (Pattern.readWhole? source).isSome = true)
      (s.unexcluded shape.references)
      (fun answer => answer.1.calls = s.unexcluded shape.references ∧
        answer.2 = shape.inherits s inherited)
  | .primitive p, location => by
    unfold NodeShape.compile
    exact (Primitive.rule_notes p location).map fun rule hrule => ⟨hrule, rfl⟩
  | .enum values, location => by
    unfold NodeShape.compile
    exact Ideal.Notes.pure ⟨rfl, rfl⟩ (by simp [NodeShape.patterns])
  | .union branches, location => by
    unfold NodeShape.compile
    exact (Node.branches_ideal_notes branches 0 location).map fun vs hvs => ⟨hvs, rfl⟩
  | .array element low high, location => by
    unfold NodeShape.compile
    exact (Node.ideal_notes element true _).map fun v hv => ⟨hv.1, rfl⟩
  | .object fields, location => by
    unfold NodeShape.compile
    exact (Node.fields_ideal_notes fields location).map fun vs hvs => ⟨hvs, rfl⟩
  | .reference name, location => by
    unfold NodeShape.compile
    exact s.ideal_notes inherited name location (by simp [NodeShape.patterns])

theorem Node.branches_ideal_notes : (branches : List Node) → ∀ i location,
    Ideal.Notes (Node.compileBranches (s.ideal inherited) i branches location)
      (∀ source ∈ Node.branchPatterns branches, (Pattern.readWhole? source).isSome = true)
      (s.unexcluded (Node.branchReferences branches))
      (fun vs => Validator.branchCalls vs = s.unexcluded (Node.branchReferences branches))
  | [], i, location => by
    unfold Node.compileBranches
    exact Ideal.Notes.pure rfl (by simp [Node.branchPatterns])
  | branch :: rest, i, location => by
    unfold Node.compileBranches Node.branchPatterns Node.branchReferences
    rw [List.forall_mem_append, Store.unexcluded, List.filter_append]
    refine (Node.ideal_notes branch true _).bind fun v hv => ?_
    refine (Node.branches_ideal_notes rest (i + 1) location).map fun vs hvs => ?_
    rw [Validator.branchCalls, hv.1, hvs]
    rfl

theorem Node.fields_ideal_notes : (fields : List (String × NodeField)) → ∀ location,
    Ideal.Notes (Node.compileFields (s.ideal inherited) fields location)
      (∀ source ∈ Node.fieldPatterns fields, (Pattern.readWhole? source).isSome = true)
      (s.unexcluded (Node.fieldReferences fields))
      (fun vs => Validator.fieldCalls vs = s.unexcluded (Node.fieldReferences fields))
  | [], location => by
    unfold Node.compileFields
    exact Ideal.Notes.pure rfl (by simp [Node.fieldPatterns])
  | (name, ⟨required, node⟩) :: rest, location => by
    unfold Node.compileFields Node.fieldPatterns Node.fieldReferences
    rw [List.forall_mem_append, Store.unexcluded, List.filter_append]
    refine (Node.ideal_notes node required _).bind fun v hv => ?_
    refine (Node.fields_ideal_notes rest location).map fun vs hvs => ?_
    rw [Validator.fieldCalls, hv.1, hvs]
    rfl

end

end

end Conform
