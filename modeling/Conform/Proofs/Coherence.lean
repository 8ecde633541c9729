import Conform.Proofs.Pass

/-!
# Coherent caches

In a coherent cache every validator is that of its type, and every type that
one of them needs is cached as well. A pass that succeeds commits what it adds
to a coherent cache as a whole, so the cache is coherent again; one that fails
leaves the cache alone.
-/

namespace Conform

namespace Cache

variable {s : Store} {c other last : Cache} {pending after : PendingTable} {name : TypeName}
  {v : Validator} {allowed : TypeName → Prop}

/-- Every entry of the one cache stands in the other. -/
def Extends (c other : Cache) : Prop :=
  ∀ name v, c.get? name = some v → other.get? name = some v

theorem Extends.refl (c : Cache) : c.Extends c := fun _ _ h => h

theorem Extends.trans (h : c.Extends other) (hlast : other.Extends last) : c.Extends last :=
  fun name v hget => hlast name v (h name v hget)

theorem contains_iff : c.contains name = true ↔ ∃ v, c.get? name = some v := Table.contains_iff

theorem Extends.contains (h : c.Extends other) (hname : c.contains name = true) :
    other.contains name = true := by
  obtain ⟨v, hv⟩ := contains_iff.mp hname
  exact contains_iff.mpr ⟨v, h name v hv⟩

theorem get?_insert {k : TypeName} :
    (c.insert k v).get? name = (c.get? name).or (if name = k then some v else none) :=
  Table.get?_insertNew

theorem get?_insert_cases {k : TypeName} {w : Validator} (h : (c.insert k v).get? name = some w) :
    c.get? name = some w ∨ name = k ∧ w = v := by
  rw [get?_insert] at h
  rcases Option.or_eq_some_iff.mp h with hget | ⟨-, hget⟩
  · exact Or.inl hget
  · split at hget
    · next heq => cases hget; exact Or.inr ⟨heq, rfl⟩
    · cases hget

/-- A stored name is cached, with the validator it had or with the one stored. -/
theorem contains_insert (c : Cache) (name : TypeName) (v : Validator) :
    (c.insert name v).contains name = true := by
  rw [contains_iff, get?_insert, if_pos rfl]
  cases c.get? name with
  | none => exact ⟨v, rfl⟩
  | some w => exact ⟨w, rfl⟩

theorem extends_insert (name : TypeName) (v : Validator) : c.Extends (c.insert name v) := by
  intro other w hget
  rw [get?_insert, hget, Option.some_or]

/-- Committing an ordered table adds the validators of the names that were not cached. -/
theorem get?_commit (hordered : Table.Ordered pending) :
    (c.commit pending).get? name =
      (c.get? name).or ((Table.get? name pending).bind Pending.validator) := by
  unfold commit
  induction pending generalizing c with
  | nil => rw [Table.get?_nil, Option.bind_none, Option.or_none]; rfl
  | cons entry rest ih =>
    obtain ⟨key, p⟩ := entry
    obtain ⟨hhead, hrest⟩ := List.pairwise_cons.mp hordered
    rw [List.foldl_cons, ih hrest, Table.get?_cons]
    have hfree : Table.get? key rest = none :=
      Table.get?_eq_none_iff.mpr fun hmem => irrefl key (hhead key hmem)
    cases hv : p.validator with
    | none =>
      simp only [hv]
      by_cases heq : key = name
      · rw [if_pos heq, ← heq, hfree, Option.bind_none, Option.bind_some, hv]
      · rw [if_neg heq]
    | some v =>
      simp only [hv]
      rw [get?_insert, Option.or_assoc]
      by_cases heq : key = name
      · rw [if_pos heq, if_pos heq.symm, ← heq, hfree, Option.bind_none, Option.or_none,
          Option.bind_some, hv]
      · rw [if_neg heq, if_neg (fun h => heq h.symm), Option.none_or]

theorem extends_commit (c : Cache) (pending : PendingTable) : c.Extends (c.commit pending) := by
  unfold commit
  induction pending generalizing c with
  | nil => exact Extends.refl c
  | cons entry rest ih =>
    obtain ⟨key, nullable, validator⟩ := entry
    rw [List.foldl_cons]
    cases validator with
    | none => exact ih c
    | some v => exact (extends_insert key v).trans (ih _)

/-- What holds of a cache between two calls. -/
structure Coherent (s : Store) (c : Cache) : Prop where
  excluded : ∀ {name v}, c.get? name = some v → s.isExcluded name = true → v = Store.acceptAll name
  ideal : ∀ {name v}, c.get? name = some v → s.isExcluded name = false →
    ∃ nullable, IsIdeal s nullable name v
  closed : ∀ {name v}, c.get? name = some v → s.isExcluded name = false →
    ∀ other, s.Edge name other → c.contains other = true

theorem Coherent.empty (s : Store) : Coherent s Cache.empty where
  excluded h := by cases h
  ideal h := by cases h
  closed h := by cases h

theorem IsIdeal.isSound {nullable : TypeName → Bool} (h : IsIdeal s nullable name v) :
    s.IsSound name := by
  obtain ⟨node, noted, hlowers, hrun⟩ := h
  exact ⟨node, hlowers, (ideal_reads hrun).1⟩

/-- What an ideal validator calls is what its type refers to. -/
theorem IsIdeal.mem_calls_iff {nullable : TypeName → Bool} (h : IsIdeal s nullable name v)
    {callee : TypeName} : callee ∈ v.calls ↔ s.Edge name callee := by
  obtain ⟨node, noted, hlowers, hrun⟩ := h
  rw [(ideal_reads hrun).2.2.1, hlowers.edge_iff, Store.unexcluded, List.mem_filter,
    Bool.not_eq_true']

theorem validated_of_reaches {other : TypeName} (hname : s.isExcluded name = false)
    (hreach : s.Reaches name other) : s.isExcluded other = false := by
  cases hreach with
  | refl => exact hname
  | tail _ hedge =>
    obtain ⟨node, -, -, hvalidated⟩ := hedge
    exact hvalidated

/-- All that a cached type leads to is cached. -/
theorem Coherent.reaches (hc : Coherent s c) (hname : s.isExcluded name = false)
    (hcached : c.contains name = true) {other : TypeName} (hreach : s.Reaches name other) :
    c.contains other = true := by
  induction hreach with
  | refl => exact hcached
  | tail hprefix hedge ih =>
    obtain ⟨v, hv⟩ := contains_iff.mp ih
    exact hc.closed hv (validated_of_reaches hname hprefix) _ hedge

theorem Coherent.compilable (hc : Coherent s c) (hname : s.isExcluded name = false)
    (hcached : c.contains name = true) : s.Compilable name := by
  intro other hreach
  obtain ⟨v, hv⟩ := contains_iff.mp (hc.reaches hname hcached hreach)
  obtain ⟨nullable, hideal⟩ := hc.ideal hv (validated_of_reaches hname hreach)
  exact hideal.isSound

/-- Every type that a cached validator calls is cached. -/
theorem Coherent.calls (hc : Coherent s c) (hget : c.get? name = some v) {callee : TypeName}
    (hcallee : callee ∈ v.calls) : c.contains callee = true := by
  cases hexcluded : s.isExcluded name with
  | true =>
    rw [hc.excluded hget hexcluded] at hcallee
    cases hcallee
  | false =>
    obtain ⟨nullable, hideal⟩ := hc.ideal hget hexcluded
    exact hc.closed hget hexcluded callee (hideal.mem_calls_iff.mp hcallee)

section Commit

variable (hpass : Pass s c pending) (hgrows : Grows s c allowed [] pending)

include hpass hgrows

theorem get?_commit_cases (hget : (c.commit pending).get? name = some v) :
    c.get? name = some v ∨
      ∃ p, Table.get? name pending = some p ∧ s.isExcluded name = false ∧
        IsIdeal s (c.inherited · s) name v := by
  rw [get?_commit hpass.ordered] at hget
  rcases Option.or_eq_some_iff.mp hget with hget | ⟨-, hget⟩
  · exact Or.inl hget
  · obtain ⟨p, hp, hv⟩ := Option.bind_eq_some_iff.mp hget
    obtain ⟨w, hw, hideal⟩ := hgrows.compiles hp Table.get?_nil
    rw [hv] at hw
    cases hw
    exact Or.inr ⟨p, hp, hpass.validated hp, hideal⟩

theorem contains_commit : (c.commit pending).contains name = c.knows pending name := by
  rw [Bool.eq_iff_iff, contains_iff, knows_iff]
  constructor
  · rintro ⟨v, hget⟩
    rcases get?_commit_cases hpass hgrows hget with hget | ⟨p, hp, -, -⟩
    · exact Or.inr ⟨v, hget⟩
    · exact Or.inl ⟨p, hp⟩
  · rintro (⟨p, hp⟩ | ⟨v, hv⟩)
    · obtain ⟨v, hv, -⟩ := hgrows.compiles hp Table.get?_nil
      exact ⟨v, by rw [get?_commit hpass.ordered, hpass.fresh hp, hp]; exact hv⟩
    · exact ⟨v, extends_commit c pending name v hv⟩

theorem Coherent.commit (hc : Coherent s c) : Coherent s (c.commit pending) where
  excluded hget hexcluded := by
    rcases get?_commit_cases hpass hgrows hget with hget | ⟨p, -, hvalidated, -⟩
    · exact hc.excluded hget hexcluded
    · rw [hvalidated] at hexcluded
      cases hexcluded
  ideal hget hvalidated := by
    rcases get?_commit_cases hpass hgrows hget with hget | ⟨p, -, -, hideal⟩
    · exact hc.ideal hget hvalidated
    · exact ⟨_, hideal⟩
  closed hget hvalidated other hedge := by
    rcases get?_commit_cases hpass hgrows hget with hget | ⟨p, hp, -, -⟩
    · exact Extends.contains (extends_commit c pending) (hc.closed hget hvalidated other hedge)
    · rw [contains_commit hpass hgrows]
      exact hgrows.closes hp Table.get?_nil other hedge

end Commit

/-- An excluded type may be cached at any time. -/
theorem Coherent.insert (hc : Coherent s c) (hexcluded : s.isExcluded name = true) :
    Coherent s (c.insert name (Store.acceptAll name)) where
  excluded {k v} hget hk := by
    rcases get?_insert_cases hget with hget | ⟨rfl, rfl⟩
    · exact hc.excluded hget hk
    · rfl
  ideal {k v} hget hk := by
    rcases get?_insert_cases hget with hget | ⟨rfl, rfl⟩
    · exact hc.ideal hget hk
    · rw [hexcluded] at hk
      cases hk
  closed {k v} hget hk other hedge := by
    rcases get?_insert_cases hget with hget | ⟨rfl, rfl⟩
    · exact Extends.contains (extends_insert _ _) (hc.closed hget hk other hedge)
    · rw [hexcluded] at hk
      cases hk

/-- What a compilation makes of a cache: nothing, one more excluded type, or all that a pass adds. -/
inductive Update (s : Store) (c : Cache) : Cache → Prop
  | same : Update s c c
  | accept {name : TypeName} : s.isExcluded name = true →
      Update s c (c.insert name (Store.acceptAll name))
  | commit {allowed : TypeName → Prop} {pending : PendingTable} : Pass s c pending →
      Grows s c allowed [] pending → Update s c (c.commit pending)

theorem Update.extends (h : Update s c other) : c.Extends other := by
  cases h with
  | same => exact Extends.refl c
  | accept _ => exact extends_insert _ _
  | commit _ _ => exact extends_commit c _

theorem Update.coherent (h : Update s c other) (hc : Coherent s c) : Coherent s other := by
  cases h with
  | same => exact hc
  | accept hexcluded => exact hc.insert hexcluded
  | commit hpass hgrows => exact hc.commit hpass hgrows

/-- Any number of compilations, one after the other. -/
def Updates (s : Store) : Cache → Cache → Prop := Relation.ReflTransGen (Update s)

theorem Updates.extends (h : Updates s c other) : c.Extends other := by
  induction h with
  | refl => exact Extends.refl c
  | tail _ hlast ih => exact ih.trans hlast.extends

theorem Updates.coherent (h : Updates s c other) (hc : Coherent s c) : Coherent s other := by
  induction h with
  | refl => exact hc
  | tail _ hlast ih => exact hlast.coherent ih

end Cache

end Conform
