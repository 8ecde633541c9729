import Conform.Proofs.Built
import Conform.Proofs.Conformance
import Conform.Proofs.Decision
import Conform.Proofs.Lowered
import Conform.Proofs.Nullability

/-!
# Where null is admitted

Null is admitted by the outermost keyword that decides the node: of a union by
`nullable` or a null-only branch, of the wrapper around one branch or member
also by that, of anything else by `nullable`, by the list of kinds, or by the
type that it refers to. The validator keeps null just there, for references
that lead to a marked type in one step.
-/

namespace Conform

open Cache

/-- The schema object admits null, told which types do. -/
inductive Definition.AdmitsGiven (s : Store) (types : TypeName → Prop) : Definition → Prop
  | nullable {d : Definition} : d.keywords.nullableSet = true → AdmitsGiven s types d
  | nullBranch {d e : Definition} {ds : List Definition} : d.branches? = some ds → e ∈ ds →
      e.isNullOnly = true → AdmitsGiven s types d
  /-- A branch that is the only one besides null stands for the union. -/
  | onlyBranch {d e : Definition} {ds : List Definition} : d.branches? = some ds →
      Definition.proper ds = [e] → AdmitsGiven s types e → AdmitsGiven s types d
  | member {d e : Definition} : d.branches? = none → d.allOf = some [e] →
      AdmitsGiven s types e → AdmitsGiven s types d
  | listed {d : Definition} : d.branches? = none → d.allOf = none →
      d.keywords.listsNull = true → AdmitsGiven s types d
  | reference {d : Definition} {reference : String} {name : TypeName} : d.branches? = none →
      d.allOf = none → d.keywords.reference = some reference →
      TypeName.ofReference reference = .ok name → s.isExcluded name = false → types name →
      AdmitsGiven s types d

/-- Some keyword of the schema object admits null, whatever stands beside it. -/
inductive Definition.NamesNull (s : Store) : Definition → Prop
  | nullable {d : Definition} : d.keywords.nullableSet = true → NamesNull s d
  | listed {d : Definition} : d.keywords.listsNull = true → NamesNull s d
  | branch {d e : Definition} {ds : List Definition} : d.branches? = some ds → e ∈ ds →
      NamesNull s e → NamesNull s d
  | member {d e : Definition} : d.allOf = some [e] → NamesNull s e → NamesNull s d
  | reference {d e : Definition} {reference : String} {name : TypeName} :
      d.keywords.reference = some reference → TypeName.ofReference reference = .ok name →
      s.isExcluded name = false → s.definition? name = some e → NamesNull s e → NamesNull s d

namespace Store

/-- The type admits null, told which other types do; an object says so itself. -/
def AdmitsGiven (s : Store) (types : TypeName → Prop) (name : TypeName) : Prop :=
  ∃ d, s.definition? name = some d ∧
    ((d.isObjectLike = true ∧ d.admitsNull = true) ∨
      (d.isObjectLike = false ∧ d.AdmitsGiven s types))

/-- The type admits null, which fewer references than this tell. -/
def AdmitsWithin (s : Store) : Nat → TypeName → Prop
  | 0 => fun _ => False
  | n + 1 => s.AdmitsGiven (s.AdmitsWithin n)

end Store

/-- The target admits null, which no more references than this tell. -/
def Target.AdmitsWithin (s : Store) (n : Nat) : Target → Prop
  | .named name => s.AdmitsGiven (s.AdmitsWithin n) name
  | .inline d => d.AdmitsGiven s (s.AdmitsWithin n)

/-- The node admits null, told which types do. -/
def Node.AdmitsGiven (s : Store) (types : TypeName → Prop) (node : Node) : Prop :=
  node.nullable = true ∨ ∃ name, node.shape = .reference name ∧ node.pinned = false ∧
    s.isExcluded name = false ∧ types name

section

variable {s : Store} {types more : TypeName → Prop} {node : Node} {f : TypeName → Bool}

theorem Node.admitsNull_iff : node.admitsNull s f = true ↔ node.AdmitsGiven s (f · = true) := by
  obtain ⟨shape, nullable, pinned⟩ := node
  unfold admitsNull AdmitsGiven
  cases shape with
  | reference name => simp [NodeShape.inherits]
  | _ => simp [NodeShape.inherits]

theorem Node.admitsGiven_never : node.AdmitsGiven s (fun _ => False) ↔ node.nullable = true := by
  unfold AdmitsGiven
  simp

theorem Node.admitsGiven_orNull {nullable : Bool} :
    (node.orNull nullable).AdmitsGiven s types ↔ nullable = true ∨ node.AdmitsGiven s types := by
  unfold orNull AdmitsGiven
  simp [or_assoc]

namespace Definition

variable {d e : Definition} {ds : List Definition}

theorem admitsGiven_union_iff (h : d.branches? = some ds) :
    d.AdmitsGiven s types ↔ d.keywords.nullableSet = true ∨ ds.any isNullOnly = true ∨
      ∃ e, proper ds = [e] ∧ e.AdmitsGiven s types := by
  constructor
  · intro hd
    cases hd with
    | nullable hnullable => exact Or.inl hnullable
    | nullBranch hbranches hmem hnull =>
      cases h.symm.trans hbranches
      exact Or.inr (Or.inl (List.any_eq_true.mpr ⟨_, hmem, hnull⟩))
    | onlyBranch hbranches honly he =>
      cases h.symm.trans hbranches
      exact Or.inr (Or.inr ⟨_, honly, he⟩)
    | member hbranches => cases h.symm.trans hbranches
    | listed hbranches => cases h.symm.trans hbranches
    | reference hbranches => cases h.symm.trans hbranches
  · rintro (hnullable | hnull | ⟨e, honly, he⟩)
    · exact .nullable hnullable
    · obtain ⟨e, hmem, hnull⟩ := List.any_eq_true.mp hnull
      exact .nullBranch h hmem hnull
    · exact .onlyBranch h honly he

theorem admitsGiven_wrapper_iff (h : d.branches? = none) (hmembers : d.allOf = some [e]) :
    d.AdmitsGiven s types ↔ d.keywords.nullableSet = true ∨ e.AdmitsGiven s types := by
  constructor
  · intro hd
    cases hd with
    | nullable hnullable => exact Or.inl hnullable
    | nullBranch hbranches => cases h.symm.trans hbranches
    | onlyBranch hbranches => cases h.symm.trans hbranches
    | member _ honly he =>
      cases hmembers.symm.trans honly
      exact Or.inr he
    | listed _ hnone => cases hmembers.symm.trans hnone
    | reference _ hnone => cases hmembers.symm.trans hnone
  · rintro (hnullable | he)
    · exact .nullable hnullable
    · exact .member h hmembers he

theorem admitsGiven_simple_iff (h : d.branches? = none) (hmembers : d.allOf = none) :
    d.AdmitsGiven s types ↔ d.admitsNull = true ∨
      ∃ reference name, d.keywords.reference = some reference ∧
        TypeName.ofReference reference = .ok name ∧ s.isExcluded name = false ∧ types name := by
  unfold admitsNull
  rw [Bool.or_eq_true]
  constructor
  · intro hd
    cases hd with
    | nullable hnullable => exact Or.inl (Or.inl hnullable)
    | nullBranch hbranches => cases h.symm.trans hbranches
    | onlyBranch hbranches => cases h.symm.trans hbranches
    | member _ honly => cases hmembers.symm.trans honly
    | listed _ _ hlisted => exact Or.inl (Or.inr hlisted)
    | reference _ _ href hname hvalidated htypes =>
      exact Or.inr ⟨_, _, href, hname, hvalidated, htypes⟩
  · rintro ((hnullable | hlisted) | ⟨reference, name, href, hname, hvalidated, htypes⟩)
    · exact .nullable hnullable
    · exact .listed h hmembers hlisted
    · exact .reference h hmembers href hname hvalidated htypes

/-- What admits null has a keyword that says so, here or where its references lead. -/
theorem AdmitsGiven.namesNull (h : d.AdmitsGiven s types)
    (htypes : ∀ name, types name → ∃ e, s.definition? name = some e ∧ e.NamesNull s) :
    d.NamesNull s := by
  induction h with
  | nullable hnullable => exact .nullable hnullable
  | nullBranch hbranches hmem hnull =>
    exact .branch hbranches hmem (.listed (Bool.and_eq_true_iff.mp hnull).1)
  | @onlyBranch d e ds hbranches honly _ ih =>
    exact .branch hbranches (List.mem_of_mem_filter (honly ▸ List.mem_singleton_self e)) ih
  | member _ honly _ ih => exact .member honly ih
  | listed _ _ hlisted => exact .listed hlisted
  | reference _ _ href hname hvalidated hadmits =>
    obtain ⟨e, he, hnames⟩ := htypes _ hadmits
    exact .reference href hname hvalidated he hnames

end Definition

theorem Store.AdmitsWithin.namesNull {n : Nat} {name : TypeName} (h : s.AdmitsWithin n name) :
    ∃ d, s.definition? name = some d ∧ d.NamesNull s := by
  induction n generalizing name with
  | zero => cases h
  | succ n ih =>
    obtain ⟨d, hd, ⟨-, hown⟩ | ⟨-, hadmits⟩⟩ := h
    · rcases Bool.or_eq_true_iff.mp hown with hnullable | hlisted
      · exact ⟨d, hd, .nullable hnullable⟩
      · exact ⟨d, hd, .listed hlisted⟩
    · exact ⟨d, hd, hadmits.namesNull fun _ => ih⟩

namespace Lower

variable {k : Keywords} {location : String} {nullable : Bool}

/-- The node is no reference, and admits null or not as said. -/
structure Concrete (nullable : Bool) (node : Node) : Prop where
  nullable : node.nullable = nullable
  pinned : node.pinned = false
  shape : ∀ name, node.shape ≠ .reference name

theorem array_concrete {element : Lowering} {shape : FieldShape}
    (h : array k element shape nullable location = .ok node) : Concrete nullable node := by
  obtain ⟨inner, -, rfl⟩ := array_node h
  exact ⟨rfl, rfl, nofun⟩

theorem object_concrete {properties : List (String × Lowering)} {declared : Option TypeFields}
    (h : object k properties declared nullable location = .ok node) : Concrete nullable node := by
  obtain ⟨fields, -, rfl⟩ := object_node h
  exact ⟨rfl, rfl, nofun⟩

namespace Parts

variable {p : Parts}

theorem simple_concrete (href : p.keywords.reference = none)
    (h : p.simple .unspecified location = .ok node) :
    Concrete (p.keywords.nullableSet || p.keywords.listsNull) node := by
  cases readAs_of_simple h with
  | reference hdecision => exact absurd hdecision (decision_ne_reference rfl href _)
  | enum strings => exact ⟨rfl, rfl, nofun⟩
  | array h => exact array_concrete h
  | object h => exact object_concrete h
  | primitive p => exact ⟨rfl, rfl, nofun⟩

theorem simple_reference {reference : String} (href : p.keywords.reference = some reference)
    (h : p.simple .unspecified location = .ok node) :
    ∃ name, TypeName.ofReference reference = .ok name ∧
      node = Node.of (.reference name) (p.keywords.nullableSet || p.keywords.listsNull) := by
  unfold simple at h
  dsimp only at h
  rw [href] at h
  dsimp only at h
  split at h
  · next name hname =>
    cases h
    exact ⟨name, hname, rfl⟩
  · cases h

end Parts

end Lower

namespace Definition

variable {d : Definition} {location : String}

/-- The node of the definition, wherever it stands, admits null just where the definition does. -/
def LowersToAdmit (s : Store) (d : Definition) : Prop :=
  ∀ location node, d.lower .unspecified location = .ok node →
    node.pinned = false ∧ ∀ types, node.AdmitsGiven s types ↔ d.AdmitsGiven s types

theorem union_admits {ds : List Definition} (hbranches : d.branches? = some ds)
    (hinside : ∀ e ∈ ds, e.LowersToAdmit s)
    (h : Lower.union ((proper ds).map lower) (d.keywords.nullableSet || ds.any isNullOnly)
      .unspecified location = .ok node) :
    node.pinned = false ∧ ∀ types, node.AdmitsGiven s types ↔ d.AdmitsGiven s types := by
  have hunion : ∀ types, d.AdmitsGiven s types ↔ d.keywords.nullableSet = true ∨
      ds.any isNullOnly = true ∨ ∃ e, proper ds = [e] ∧ e.AdmitsGiven s types :=
    fun _ => admitsGiven_union_iff hbranches
  cases hproper : proper ds with
  | nil => rw [hproper] at h; cases h
  | cons e rest =>
    rw [hproper] at h
    cases rest with
    | nil =>
      obtain ⟨inner, hinner, h⟩ := exists_ok_of_bind h
      cases h
      have hmem : e ∈ ds := List.mem_of_mem_filter (hproper ▸ List.mem_singleton_self e)
      obtain ⟨hpinned, hadmits⟩ := hinside e hmem location inner hinner
      refine ⟨hpinned, fun types => ?_⟩
      rw [hunion, Node.admitsGiven_orNull, hadmits, hproper, Bool.or_eq_true, or_assoc]
      simp
    | cons other more =>
      obtain ⟨nodes, -, h⟩ := exists_ok_of_bind h
      cases h
      refine ⟨rfl, fun types => ?_⟩
      rw [hunion, hproper]
      simp [Node.AdmitsGiven, Node.of]

theorem wrapper_admits {ds : List Definition} (hbranches : d.branches? = none)
    (hmembers : d.allOf = some ds) (hinside : ∀ e ∈ ds, e.LowersToAdmit s)
    (h : Lower.wrapper (ds.map lower) d.keywords.nullableSet .unspecified location = .ok node) :
    node.pinned = false ∧ ∀ types, node.AdmitsGiven s types ↔ d.AdmitsGiven s types := by
  match ds with
  | [] => cases h
  | _ :: _ :: _ => cases h
  | [e] =>
    obtain ⟨inner, hinner, h⟩ := exists_ok_of_bind h
    cases h
    obtain ⟨hpinned, hadmits⟩ := hinside e (List.mem_singleton_self e) location inner hinner
    refine ⟨hpinned, fun types => ?_⟩
    rw [admitsGiven_wrapper_iff hbranches hmembers, Node.admitsGiven_orNull, hadmits]

theorem simple_admits (hbranches : d.branches? = none) (hmembers : d.allOf = none)
    (h : d.parts.simple .unspecified location = .ok node) :
    node.pinned = false ∧ ∀ types, node.AdmitsGiven s types ↔ d.AdmitsGiven s types := by
  cases href : d.keywords.reference with
  | none =>
    have hconcrete := Lower.Parts.simple_concrete href h
    refine ⟨hconcrete.pinned, fun types => ?_⟩
    rw [admitsGiven_simple_iff hbranches hmembers, Node.AdmitsGiven, hconcrete.nullable, href]
    simp [hconcrete.shape, admitsNull, parts]
  | some reference =>
    obtain ⟨name, hname, rfl⟩ := Lower.Parts.simple_reference href h
    refine ⟨rfl, fun types => ?_⟩
    rw [admitsGiven_simple_iff hbranches hmembers, href]
    simp [Node.AdmitsGiven, Node.of, hname, admitsNull, parts]

/-- A definition lowers to a node that admits null just where the definition does. -/
theorem lower_admits (d : Definition) : d.LowersToAdmit s := by
  refine induction (fun d hinside location node h => ?_) d
  rw [lower_eq] at h
  unfold Lower.Parts.lower at h
  cases hbranches : d.branches? with
  | some ds =>
    have hparts : d.parts.branches = some ((proper ds).map lower, ds.any isNullOnly) := by
      simp [parts, hbranches]
    rw [hparts] at h
    refine union_admits hbranches (fun e he => ?_) h
    rcases Option.or_eq_some_iff.mp hbranches with hone | ⟨-, hany⟩
    · exact hinside.oneOf ds hone e he
    · exact hinside.anyOf ds hany e he
  | none =>
    have hparts : d.parts.branches = none := by simp [parts, hbranches]
    rw [hparts] at h
    cases hmembers : d.allOf with
    | some ds =>
      have hmany : d.parts.members = some (ds.map lower) := by simp [parts, hmembers]
      rw [hmany] at h
      exact wrapper_admits hbranches hmembers (hinside.allOf ds hmembers) h
    | none =>
      have hnone : d.parts.members = none := by simp [parts, hmembers]
      rw [hnone] at h
      exact simple_admits hbranches hmembers h

end Definition

/-- The node of a type admits null just where the type does, if no fields are declared for it. -/
theorem Store.lowers_admits (hfields : ∀ name, s.fields? name = none) {name : TypeName}
    (h : s.Lowers name node) :
    node.pinned = false ∧ ∀ types, node.AdmitsGiven s types ↔ s.AdmitsGiven types name := by
  obtain ⟨d, hd⟩ := h.definition
  unfold Store.Lowers Store.lower at h
  rw [hd] at h
  dsimp only at h
  have hobject : s.isObject name d = d.isObjectLike := by simp [Store.isObject, hfields name]
  rw [hobject] at h
  unfold Store.AdmitsGiven
  rw [hd]
  cases hlike : d.isObjectLike with
  | true =>
    rw [hlike, if_pos rfl] at h
    have hconcrete := Lower.object_concrete h
    refine ⟨hconcrete.pinned, fun types => ?_⟩
    rw [Node.AdmitsGiven, hconcrete.nullable]
    simp [hconcrete.shape, hlike]
  | false =>
    rw [hlike] at h
    obtain ⟨hpinned, hadmits⟩ := Definition.lower_admits (s := s) d _ _ h
    refine ⟨hpinned, fun types => ?_⟩
    rw [hadmits]
    simp [hlike]

end

/-- The validator keeps a null that is present. -/
def Validator.KeepsNull (v : Validator) : Prop :=
  ∀ (hop : Hop Option) encoded path,
    v.apply hop encoded path (some .null) = some (Outcome.kept .null)

theorem Validator.apply_present_null {v : Validator} (hop : Hop Option) (encoded : Bool)
    (path : FieldPath) : v.apply hop encoded path (some .null) =
      some (if v.nullable then Outcome.kept .null
        else Check.missing v.required v.rule.expected path (some .null)) := by
  obtain ⟨required, nullable, rule⟩ := v
  unfold apply
  rfl

theorem Validator.keepsNull_iff {v : Validator} : v.KeepsNull ↔ v.nullable = true := by
  constructor
  · intro h
    have hroot := h (fun _ _ _ => none) false FieldPath.root
    rw [apply_present_null] at hroot
    cases hnullable : v.nullable with
    | true => rfl
    | false =>
      rw [hnullable] at hroot
      unfold Check.missing at hroot
      cases hrequired : v.required <;> rw [hrequired] at hroot <;> cases hroot
  · intro h hop encoded path
    rw [apply_present_null, h]
    rfl

/--
The validator keeps null only where so many references tell that null is
admitted, and wherever one reference tells it; also wherever more tell it, if
aliases of nullable types are marked.
-/
structure Validator.KeepsNullAs (s : Store) (admits : Nat → Prop) (v : Validator) : Prop where
  only : v.KeepsNull → ∃ n, admits n
  wherever : ∀ n, n ≤ 1 ∨ s.AliasesShowNull → admits n → v.KeepsNull

/-- Told fairly which types are nullable: the marked ones are, and only such as admit null. -/
structure Store.Fair (s : Store) (f : TypeName → Bool) : Prop where
  marked : ∀ name, s.isExcluded name = false → s.ownNullable name = true → f name = true
  admits : ∀ name, s.isExcluded name = false → f name = true → ∃ n, s.AdmitsWithin n name

namespace Cache

variable {s : Store} {c other : Cache} {f : TypeName → Bool} {name : TypeName} {node : Node}
  {required : Bool} {v : Validator}

/-- A coherent cache whose validators were told fairly which types are nullable. -/
structure Grounded (s : Store) (c : Cache) : Prop where
  coherent : Coherent s c
  fair : ∀ {name v}, c.get? name = some v → s.isExcluded name = false →
    ∃ f, s.Fair f ∧ IsIdeal s f name v

theorem Grounded.empty (s : Store) : Grounded s Cache.empty where
  coherent := Coherent.empty s
  fair h := by cases h

/-- Null is kept only where it is admitted. -/
theorem admits_of_nullable (hfair : s.Fair f) (hbuilds : node.Builds s f required v)
    (hnullable : v.nullable = true) : ∃ n, node.AdmitsGiven s (s.AdmitsWithin n) := by
  cases hbuilds with
  | mk =>
    rcases Node.admitsNull_iff.mp hnullable with hown | ⟨name, hshape, hpinned, hvalidated, hname⟩
    · exact ⟨0, Or.inl hown⟩
    · obtain ⟨n, hn⟩ := hfair.admits name hvalidated hname
      exact ⟨n, Or.inr ⟨name, hshape, hpinned, hvalidated, hn⟩⟩

section

variable (hfields : ∀ name, s.fields? name = none)

include hfields

theorem marked_iff (h : s.Lowers name node) :
    s.ownNullable name = true ↔ s.AdmitsWithin 1 name := by
  rw [h.ownNullable, ← Node.admitsGiven_never, (Store.lowers_admits hfields h).2]
  rfl

/-- Where aliases show that they are nullable, the types that admit null are marked. -/
theorem marked_of_admits (hs : s.AliasesShowNull) {n : Nat} (hvalidated : s.isExcluded name = false)
    (hcompilable : s.Compilable name) (hadmits : s.AdmitsWithin n name) :
    s.ownNullable name = true := by
  induction n generalizing name with
  | zero => cases hadmits
  | succ n ih =>
    obtain ⟨⟨shape, nullable, pinned⟩, hlowers, -⟩ := hcompilable.isSound
    obtain ⟨hpinned, hnode⟩ := Store.lowers_admits hfields hlowers
    rw [hlowers.ownNullable]
    rcases (hnode _).mpr hadmits with hown | ⟨target, hshape, -, htarget, hadmits⟩
    · exact hown
    · cases hshape
      cases hpinned
      have hedge : s.Edge name target := ⟨_, hlowers, List.mem_singleton_self target, htarget⟩
      have hmarked := ih htarget (hcompilable.edge hedge) hadmits
      exact hs name target nullable hvalidated hcompilable hlowers htarget hmarked

/-- Null is kept wherever one reference at most tells so, or more where aliases show it. -/
theorem nullable_of_admits {n : Nat} (hn : n ≤ 1 ∨ s.AliasesShowNull) (hfair : s.Fair f)
    (hc : Coherent s c) (hbuilds : node.Builds s f required v)
    (hcalls : ∀ callee ∈ v.calls, c.contains callee = true)
    (hadmits : node.AdmitsGiven s (s.AdmitsWithin n)) : v.nullable = true := by
  cases hbuilds with
  | @mk shape nullable pinned _ rule hrule =>
    refine Node.admitsNull_iff.mpr ?_
    rcases hadmits with hown | ⟨name, hshape, hpinned, hvalidated, hname⟩
    · exact Or.inl hown
    · refine Or.inr ⟨name, hshape, hpinned, hvalidated, hfair.marked name hvalidated ?_⟩
      cases hshape
      cases hrule with
      | accept hexcluded =>
        rw [hvalidated] at hexcluded
        cases hexcluded
      | named =>
        have hcached := hcalls name (List.mem_singleton_self name)
        have hcompilable := hc.compilable hvalidated hcached
        rcases hn with hn | hs
        · obtain ⟨node, hlowers, -⟩ := hcompilable.isSound
          refine (marked_iff hfields hlowers).mpr ?_
          match n, hn with
          | 0, _ => cases hname
          | 1, _ => exact hname
        · exact marked_of_admits hfields hs hvalidated hcompilable hname

theorem Grounded.inherited (hc : Grounded s c) : s.Fair (c.inherited · s) where
  marked name hvalidated hmarked := by
    unfold Cache.inherited
    cases hget : c.get? name with
    | none => exact hmarked
    | some v =>
      obtain ⟨f, -, node, noted, hlowers, hrun⟩ := hc.fair hget hvalidated
      rw [hlowers.ownNullable] at hmarked
      dsimp only
      rw [(ideal_reads hrun).2.2.2, Node.admitsNull, hmarked, Bool.true_or]
  admits name hvalidated hnullable := by
    unfold Cache.inherited at hnullable
    cases hget : c.get? name with
    | none =>
      rw [hget] at hnullable
      unfold Store.ownNullable at hnullable
      cases hlower : s.lower name name.text with
      | error e => rw [hlower] at hnullable; cases hnullable
      | ok node =>
        rw [hlower] at hnullable
        exact ⟨1, (marked_iff hfields hlower).mp (Store.Lowers.ownNullable hlower ▸ hnullable)⟩
    | some v =>
      rw [hget] at hnullable
      obtain ⟨f, hfair, hideal⟩ := hc.fair hget hvalidated
      obtain ⟨node, hlowers, hbuilds⟩ := hideal.builds
      obtain ⟨n, hn⟩ := admits_of_nullable hfair hbuilds hnullable
      exact ⟨n + 1, ((Store.lowers_admits hfields hlowers).2 _).mp hn⟩

theorem Update.grounded (h : Update s c other) (hc : Grounded s c) : Grounded s other where
  coherent := h.coherent hc.coherent
  fair {name v} hget hvalidated := by
    cases h with
    | same => exact hc.fair hget hvalidated
    | accept hexcluded =>
      rcases get?_insert_cases hget with hget | ⟨rfl, rfl⟩
      · exact hc.fair hget hvalidated
      · rw [hexcluded] at hvalidated
        cases hvalidated
    | commit hpass hgrows =>
      rcases get?_commit_cases hpass hgrows hget with hget | ⟨p, -, -, hideal⟩
      · exact hc.fair hget hvalidated
      · exact ⟨_, hc.inherited hfields, hideal⟩

theorem Updates.grounded (h : Updates s c other) (hc : Grounded s c) : Grounded s other := by
  induction h with
  | refl => exact hc
  | tail _ hlast ih => exact hlast.grounded hfields ih

theorem keepsNull_of_builds (hfair : s.Fair f) (hc : Coherent s c)
    (hbuilds : node.Builds s f required v) (hcalls : ∀ callee ∈ v.calls, c.contains callee = true)
    {admits : (TypeName → Prop) → Prop}
    (hadmits : ∀ types, node.AdmitsGiven s types ↔ admits types) :
    v.KeepsNullAs s fun n => admits (s.AdmitsWithin n) where
  only hnull := by
    obtain ⟨n, hn⟩ := admits_of_nullable hfair hbuilds (Validator.keepsNull_iff.mp hnull)
    exact ⟨n, (hadmits _).mp hn⟩
  wherever n hn hnode := Validator.keepsNull_iff.mpr
    (nullable_of_admits hfields hn hfair hc hbuilds hcalls ((hadmits _).mpr hnode))

/-- The fields of a type keep null as its properties admit it. -/
theorem fields_keepNull {k : Keywords} {owner : String} (hfair : s.Fair f) (hc : Coherent s c)
    {ps : List (String × Definition)} {fields : List (String × NodeField)}
    {vs : List (String × Validator)}
    (hlower : Lower.allFields k owner (Table.mapValues Definition.lower ps) = .ok fields)
    (hbuilds : Node.BuildsFields s f fields vs)
    (hcalls : ∀ callee ∈ Validator.fieldCalls vs, c.contains callee = true) :
    List.Forall₂ (fun property field => field.1 = property.1 ∧
      field.2.KeepsNullAs s fun n => property.2.AdmitsGiven s (s.AdmitsWithin n)) ps vs := by
  induction ps generalizing fields vs with
  | nil =>
    cases hlower
    cases hbuilds
    exact .nil
  | cons property rest ih =>
    obtain ⟨name, d⟩ := property
    obtain ⟨node, hnode, hlower⟩ := exists_ok_of_bind hlower
    obtain ⟨more, hmore, hlower⟩ := exists_ok_of_bind hlower
    cases hlower
    cases hbuilds with
    | @cons _ _ _ v _ vs hfield hrest =>
      have hhead : ∀ callee ∈ v.calls, c.contains callee = true :=
        fun callee hcallee => hcalls callee (List.mem_append_left _ hcallee)
      have htail : ∀ callee ∈ Validator.fieldCalls vs, c.contains callee = true :=
        fun callee hcallee => hcalls callee (List.mem_append_right _ hcallee)
      have hadmits := (Definition.lower_admits (s := s) d _ _ hnode).2
      exact .cons ⟨rfl, keepsNull_of_builds hfields hfair hc hfield hhead hadmits⟩
        (ih hmore hrest htail)

end

end Cache

/-- The target is validated at all. -/
def Target.IsValidated (s : Store) : Target → Prop
  | .named name => s.isExcluded name = false
  | .inline _ => True

namespace Store

variable {s : Store} {c c' : Cache} {name : TypeName} {target : Target} {location : String}
  {v : Validator} {d : Definition} {ps : List (String × Definition)}

/-- The validator of a target keeps null as the target admits it. -/
theorem compileTarget_keepsNull (hfields : ∀ name, s.fields? name = none) (hc : Grounded s c)
    (htarget : target.IsValidated s) (h : s.compileTarget c target location = .ok (v, c')) :
    v.KeepsNullAs s fun n => target.AdmitsWithin s n := by
  have hcoherent := (compileTarget_ok h).1.coherent hc.coherent
  have hcalls := (compileTarget_ok h).2 hc.coherent
  cases target with
  | named name =>
    obtain ⟨hupdate, hget⟩ := compileNamed_ok h
    obtain ⟨f, hfair, hideal⟩ := (hupdate.grounded hfields hc).fair hget htarget
    obtain ⟨node, hlowers, hbuilds⟩ := hideal.builds
    have hadmits := (lowers_admits hfields hlowers).2
    exact keepsNull_of_builds hfields hfair hcoherent hbuilds hcalls hadmits
  | inline d =>
    obtain ⟨node, hlower, hbuilds⟩ := compileInline_builds h
    have hadmits := (Definition.lower_admits (s := s) d _ _ hlower).2
    exact keepsNull_of_builds hfields (hc.inherited hfields) hcoherent hbuilds hcalls hadmits

/-- A cached object has a field for each property, which keeps null as the property admits it. -/
theorem cached_fields_keepNull (hfields : ∀ name, s.fields? name = none) (hc : Grounded s c)
    (hname : s.isExcluded name = false) (hget : c.get? name = some v)
    (hd : s.definition? name = some d) (hps : d.properties = some ps) :
    ∃ vs, v.rule = .object vs ∧ List.Forall₂ (fun property field => field.1 = property.1 ∧
      field.2.KeepsNullAs s fun n => property.2.AdmitsGiven s (s.AdmitsWithin n)) ps vs := by
  obtain ⟨f, hfair, hideal⟩ := hc.fair hget hname
  obtain ⟨node, hlowers, hbuilds⟩ := hideal.builds
  have hcalls : ∀ callee ∈ v.calls, c.contains callee = true :=
    fun _ hcallee => hc.coherent.calls hget hcallee
  unfold Lowers lower at hlowers
  rw [hd] at hlowers
  dsimp only at hlowers
  have hobject : s.isObject name d = true := by simp [isObject, Definition.isObjectLike, hps]
  rw [hobject, if_pos rfl, hps, Definition.lowerTable_eq, hfields] at hlowers
  obtain ⟨fields, hall, rfl⟩ := Lower.object_node hlowers
  cases hbuilds with
  | mk hrule =>
    cases hrule with
    | object hvs => exact ⟨_, rfl, fields_keepNull hfields hfair hc.coherent hall hvs hcalls⟩

end Store

namespace Session

variable {s t : Session} {target : Target} {channel : Channel} {v : Validator}

theorem validate_null_iff (hrequired : v.required = true)
    (h : s.validatorFor target (locationOf channel) = (.ok v, t)) :
    (s.validate .null target channel).1 = .accepted .null ↔ v.KeepsNull := by
  rw [validate_of_validatorFor h, Verdict.ofOutcome_eq_accepted_iff, Validator.keepsNull_iff]
  unfold outcome?
  rw [Validator.apply_present_null, hrequired]
  cases v.nullable with
  | true => exact ⟨fun _ => rfl, fun _ => ⟨_, rfl, rfl, rfl⟩⟩
  | false =>
    constructor
    · rintro ⟨o, ho, haccepted, -⟩
      cases ho
      cases haccepted
    · intro h
      cases h

theorem after_grounded {store : Store} (hfields : ∀ name, store.fields? name = none)
    (calls : List Call) : Grounded store (after store calls).cache :=
  (after_advances store calls).updates.grounded hfields (Grounded.empty store)

/--
After any calls, null is accepted only where it is admitted, and is accepted
where it is admitted with at most one reference followed. Where aliases of
nullable types are marked, it is accepted wherever it is admitted. The same
holds of the fields of every compiled object.
-/
theorem null_accepted_as_admitted (store : Store) (hfields : ∀ name, store.fields? name = none)
    (calls : List Call) :
    let now := after store calls
    (∀ target channel v, target.IsValidated store →
      (now.validatorFor target (locationOf channel)).1 = .ok v →
      ((now.validate .null target channel).1 = .accepted .null →
        ∃ n, target.AdmitsWithin store n) ∧
      ∀ n, n ≤ 1 ∨ store.AliasesShowNull → target.AdmitsWithin store n →
        (now.validate .null target channel).1 = .accepted .null) ∧
    ∀ name v d ps, store.isExcluded name = false → (now.compiled name).1 = .ok v →
      store.definition? name = some d → d.properties = some ps →
      ∃ fields, v.rule = .object fields ∧ List.Forall₂ (fun property field =>
        field.1 = property.1 ∧ field.2.KeepsNullAs store fun n =>
          (Target.inline property.2).AdmitsWithin store n) ps fields := by
  intro now
  have hstore : now.store = store := after_store store calls
  have hgrounded : Grounded store now.cache := after_grounded hfields calls
  constructor
  · intro target channel v htarget hok
    have hfor : now.validatorFor target (locationOf channel) =
        (.ok v, (now.validatorFor target (locationOf channel)).2) := Prod.ext hok rfl
    have hcompiled := validatorFor_ok hfor
    rw [hstore] at hcompiled
    have hrequired := (Store.tight_of_compileTarget hgrounded.coherent hcompiled).1
    have hkeeps := Store.compileTarget_keepsNull hfields hgrounded htarget hcompiled
    rw [validate_null_iff hrequired hfor]
    exact ⟨hkeeps.only, hkeeps.wherever⟩
  · intro name v d ps hname hok hd hps
    have hfor : now.validatorFor (.named name) name.text = (.ok v, (now.compiled name).2) :=
      Prod.ext hok rfl
    have hcompiled := validatorFor_ok hfor
    rw [hstore] at hcompiled
    obtain ⟨hupdate, hget⟩ := Store.compileNamed_ok hcompiled
    exact Store.cached_fields_keepNull hfields (hupdate.grounded hfields hgrounded) hname hget hd hps

/-- A name for a nullable type accepts null, though only its reference tells so. -/
theorem null_accepted_by_alias : (∀ name, aliasStore.fields? name = none) ∧
    ((after aliasStore []).validate .null (.named aliasName) .body).1 = .accepted .null := by
  have hfields : ∀ name, aliasStore.fields? name = none := fun _ => rfl
  refine ⟨hfields, ?_⟩
  obtain ⟨htargets, -⟩ := null_accepted_as_admitted aliasStore hfields []
  have hvalidated : Target.IsValidated aliasStore (.named aliasName) := rfl
  have hmaybe : aliasStore.AdmitsWithin 1 maybeName := ⟨_, rfl, Or.inr ⟨rfl, .nullable rfl⟩⟩
  have hreference := TypeName.ofReference_toReference maybeName
  have halias : (Target.named aliasName).AdmitsWithin aliasStore 1 :=
    ⟨_, rfl, Or.inr ⟨rfl, .reference rfl rfl rfl hreference rfl hmaybe⟩⟩
  have hok : ((after aliasStore []).validatorFor (.named aliasName) (locationOf .body)).1.toBool =
      true := by decide +kernel
  cases hcompiled : ((after aliasStore []).validatorFor (.named aliasName) (locationOf .body)).1 with
  | error e => rw [hcompiled] at hok; cases hok
  | ok v =>
    obtain ⟨-, hwherever⟩ := htargets (.named aliasName) .body v hvalidated hcompiled
    exact hwherever 1 (Or.inl (Nat.le_refl 1)) halias

/-- A union of a nullable text and an integer. -/
def nullableBranch : Definition where
  oneOf := some [plainDefinition { kinds := some (.one "string"), nullable := some true },
    plainDefinition { kinds := some (.one "integer") }]

/-- A branch that admits null is not asked about it. -/
theorem null_of_branch_refused : nullableBranch.NamesNull Store.empty ∧
    ∃ report, ((after Store.empty []).validate .null (.inline nullableBranch) .body).1 =
      .rejected report := by
  constructor
  · exact .branch rfl List.mem_cons_self (.nullable rfl)
  · exact ⟨_, rfl⟩

end Session

end Conform
