import Conform.Proofs.Coherence

/-!
# Nullability of references

A reference asks its type for its nullability. A type that is still being
compiled answers with its own, a cached one with that of its validator, which
may have come from yet another type. The two agree where a name for a nullable
type is marked nullable as well.
-/

namespace Conform

namespace Store

variable {s : Store} {name : TypeName} {node : Node} {f g : TypeName → Bool}

/-- A validated type that only stands for a nullable one is marked nullable itself. -/
def AliasesShowNull (s : Store) : Prop :=
  ∀ name target nullable, s.isExcluded name = false → s.Compilable name →
    s.Lowers name ⟨.reference target, nullable, false⟩ → s.isExcluded target = false →
    s.ownNullable target = true → nullable = true

/-- Nobody asks an excluded type. -/
theorem ideal_congr (h : ∀ name, s.isExcluded name = false → f name = g name) :
    s.ideal f = s.ideal g := by
  funext name location
  unfold ideal
  cases hexcluded : s.isExcluded name with
  | true => rfl
  | false => rw [h name hexcluded]

/-- Where the type only stands for a nullable one, it is marked nullable itself. -/
def ShowsNull (s : Store) (name : TypeName) : Prop :=
  ∀ target nullable, s.Lowers name ⟨.reference target, nullable, false⟩ →
    s.isExcluded target = false → s.ownNullable target = true → nullable = true

theorem ShowsNull.admitsNull (hshows : s.ShowsNull name) (hlowers : s.Lowers name node) :
    node.admitsNull s s.ownNullable = node.nullable := by
  obtain ⟨shape, nullable, pinned⟩ := node
  cases nullable with
  | true => rfl
  | false =>
    unfold Node.admitsNull
    cases pinned with
    | true => rfl
    | false =>
      cases shape with
      | reference target =>
        rw [NodeShape.inherits, Bool.false_or, Bool.not_false, Bool.true_and]
        cases htarget : s.isExcluded target with
        | true => rfl
        | false =>
          cases hown : s.ownNullable target with
          | false => rfl
          | true =>
            have hmarked := hshows target false hlowers htarget hown
            cases hmarked
      | _ => rfl

theorem AliasesShowNull.admitsNull (hs : s.AliasesShowNull) (hname : s.isExcluded name = false)
    (hcompilable : s.Compilable name) (hlowers : s.Lowers name node) :
    node.admitsNull s s.ownNullable = node.nullable :=
  ShowsNull.admitsNull (fun target nullable => hs name target nullable hname hcompilable) hlowers

end Store

namespace Cache

variable {s : Store} {c other : Cache} {name : TypeName} {v w : Validator} {f g : TypeName → Bool}

theorem IsIdeal.congr (h : IsIdeal s f name v)
    (hfg : ∀ name, s.isExcluded name = false → f name = g name) : IsIdeal s g name v := by
  obtain ⟨node, noted, hlowers, hrun⟩ := h
  rw [Store.ideal_congr hfg] at hrun
  exact ⟨node, noted, hlowers, hrun⟩

theorem IsIdeal.unique (h : IsIdeal s f name v) (hw : IsIdeal s f name w) : v = w := by
  obtain ⟨node, noted, hlowers, hrun⟩ := h
  obtain ⟨node', noted', hlowers', hrun'⟩ := hw
  rw [hlowers.unique hlowers'] at hrun
  cases hrun.symm.trans hrun'
  rfl

/-- A coherent cache in which every reference found its type as nullable as it is marked. -/
structure Literal (s : Store) (c : Cache) : Prop where
  coherent : Coherent s c
  own : ∀ {name v}, c.get? name = some v → s.isExcluded name = false →
    IsIdeal s s.ownNullable name v

theorem Literal.empty (s : Store) : Literal s Cache.empty where
  coherent := Coherent.empty s
  own h := by cases h

/-- A type whose references are cached may be cached itself. -/
theorem Literal.insert (hc : Literal s c) (hname : s.isExcluded name = false)
    (hideal : IsIdeal s s.ownNullable name v)
    (hclosed : ∀ other, s.Edge name other → other = name ∨ c.contains other = true) :
    Literal s (c.insert name v) where
  coherent :=
    { excluded := fun {k w} hget hk => by
        rcases get?_insert_cases hget with hget | ⟨rfl, rfl⟩
        · exact hc.coherent.excluded hget hk
        · rw [hname] at hk
          cases hk
      ideal := fun {k w} hget hk => by
        rcases get?_insert_cases hget with hget | ⟨rfl, rfl⟩
        · exact hc.coherent.ideal hget hk
        · exact ⟨_, hideal⟩
      closed := fun {k w} hget hk other hedge => by
        rcases get?_insert_cases hget with hget | ⟨rfl, rfl⟩
        · exact Extends.contains (extends_insert _ _) (hc.coherent.closed hget hk other hedge)
        · rcases hclosed other hedge with rfl | hother
          · exact contains_insert c other w
          · exact Extends.contains (extends_insert _ _) hother }
  own {k w} hget hk := by
    rcases get?_insert_cases hget with hget | ⟨rfl, rfl⟩
    · exact hc.own hget hk
    · exact hideal

section Marked

variable (hs : s.AliasesShowNull)

include hs

theorem Literal.nullable (hc : Literal s c) (hget : c.get? name = some v)
    (hname : s.isExcluded name = false) : v.nullable = s.ownNullable name := by
  obtain ⟨node, noted, hlowers, hrun⟩ := hc.own hget hname
  have hcompilable := hc.coherent.compilable hname (contains_iff.mpr ⟨v, hget⟩)
  obtain ⟨-, -, -, hnullable⟩ := ideal_reads hrun
  rw [hnullable, hs.admitsNull hname hcompilable hlowers, hlowers.ownNullable]

theorem Literal.inherited (hc : Literal s c) (hname : s.isExcluded name = false) :
    c.inherited name s = s.ownNullable name := by
  unfold Cache.inherited
  cases hget : c.get? name with
  | none => rfl
  | some v => exact hc.nullable hs hget hname

theorem Update.literal (h : Update s c other) (hc : Literal s c) : Literal s other where
  coherent := h.coherent hc.coherent
  own {name v} hget hname := by
    cases h with
    | same => exact hc.own hget hname
    | accept hexcluded =>
      rcases get?_insert_cases hget with hget | ⟨rfl, rfl⟩
      · exact hc.own hget hname
      · rw [hexcluded] at hname
        cases hname
    | commit hpass hgrows =>
      rcases get?_commit_cases hpass hgrows hget with hget | ⟨p, -, -, hideal⟩
      · exact hc.own hget hname
      · exact hideal.congr fun other hother => hc.inherited hs hother

theorem Updates.literal (h : Updates s c other) (hc : Literal s c) : Literal s other := by
  induction h with
  | refl => exact hc
  | tail _ hlast ih => exact hlast.literal hs ih

end Marked

/-- Literal caches have the same validator for a type that both have. -/
theorem Literal.agrees (hc : Literal s c) (hother : Literal s other) (hget : c.get? name = some v)
    (hget' : other.get? name = some w) : v = w := by
  cases hname : s.isExcluded name with
  | true => rw [hc.coherent.excluded hget hname, hother.coherent.excluded hget' hname]
  | false => exact (hc.own hget hname).unique (hother.own hget' hname)

end Cache

end Conform
