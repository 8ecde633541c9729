import Conform.Proofs.Coherence

/-!
# Exact compilation

Compiling a named type succeeds exactly where every type it leads to is sound.
The cache then gains just those types, and where compiling fails it gains none.
-/

namespace Conform

open Cache

namespace Store

variable {s : Store} {c c' : Cache} {name : TypeName} {v : Validator}

theorem not_compilable_of_broken (h : Broken s (s.Reaches name)) : ¬ s.Compilable name := by
  obtain ⟨other, hreach, hbroken⟩ := h
  exact fun hcompilable => hbroken (hcompilable other hreach)

/-- The pass of a validated type. -/
theorem require_provides_reached (hvalidated : s.isExcluded name = false) :
    Provides s c (s.Reaches name) name []
      (StateT.run (s.require c.lookup s.depthLimit name name.text) []) :=
  require_provides (fun _ _ hreach hedge => hreach.tail hedge) s.depthLimit name name.text []
    .refl hvalidated (Pass.empty s c) card_undiscovered_le

/-- A pass has compiled a type that was not cached. -/
structure Compiles (s : Store) (c : Cache) (name : TypeName) (pending : PendingTable)
    (v : Validator) : Prop where
  run : StateT.run (s.require (m := Compile) c.lookup s.depthLimit name name.text) [] =
    .ok ((), pending)
  pass : Pass s c pending
  grows : Grows s c (s.Reaches name) [] pending
  known : c.knows pending name = true
  cached : (c.commit pending).get? name = some v
  answer : s.compileNamed c name = .ok (v, c.commit pending)

/-- A pass has failed over a type that was not cached. -/
structure Fails (s : Store) (c : Cache) (name : TypeName) (e : CompileError) : Prop where
  run : StateT.run (s.require (m := Compile) c.lookup s.depthLimit name name.text) [] = .error e
  answer : s.compileNamed c name = .error e
  broken : ¬ s.Compilable name

/-- What becomes of a validated type that is not cached. -/
theorem compileNamed_fresh (hfresh : c.get? name = none) (hvalidated : s.isExcluded name = false) :
    (∃ pending v, Compiles s c name pending v) ∨ ∃ e, Fails s c name e := by
  have hprovides := require_provides_reached (c := c) hvalidated
  cases hrun : StateT.run (s.require (m := Compile) c.lookup s.depthLimit name name.text) [] with
  | error e =>
    rw [hrun] at hprovides
    refine Or.inr ⟨e, hrun, ?_, not_compilable_of_broken hprovides⟩
    unfold compileNamed Compile.run
    rw [hfresh, hvalidated]
    simp only [Bool.false_eq_true, if_false, bind, Except.bind, hrun]
  | ok last =>
    obtain ⟨⟨⟩, pending⟩ := last
    rw [hrun] at hprovides
    obtain ⟨hpass, hgrows, hknown⟩ := hprovides
    have hcached : (c.commit pending).contains name = true := by
      rw [contains_commit hpass hgrows]
      exact hknown
    obtain ⟨v, hv⟩ := contains_iff.mp hcached
    refine Or.inl ⟨pending, v, hrun, hpass, hgrows, hknown, hv, ?_⟩
    unfold compileNamed Compile.run
    rw [hfresh, hvalidated]
    simp only [Bool.false_eq_true, if_false, bind, Except.bind, hrun, hv]

theorem compileNamed_cached (hcached : c.get? name = some v) :
    s.compileNamed c name = .ok (v, c) := by
  unfold compileNamed
  rw [hcached]

theorem compileNamed_excluded (hfresh : c.get? name = none) (hexcluded : s.isExcluded name = true) :
    s.compileNamed c name = .ok (acceptAll name, c.insert name (acceptAll name)) := by
  unfold compileNamed
  rw [hfresh, hexcluded]
  rfl

/-- A compiled type is cached by an update. -/
theorem compileNamed_ok (h : s.compileNamed c name = .ok (v, c')) :
    Update s c c' ∧ c'.get? name = some v := by
  cases hget : c.get? name with
  | some w =>
    rw [compileNamed_cached hget] at h
    cases h
    exact ⟨.same, hget⟩
  | none =>
    cases hexcluded : s.isExcluded name with
    | true =>
      rw [compileNamed_excluded hget hexcluded] at h
      cases h
      refine ⟨.accept hexcluded, ?_⟩
      rw [get?_insert, hget, if_pos rfl, Option.none_or]
    | false =>
      rcases compileNamed_fresh hget hexcluded with ⟨pending, w, hcompiles⟩ | ⟨e, hfails⟩
      · rw [hcompiles.answer] at h
        cases h
        exact ⟨.commit hcompiles.pass hcompiles.grows, hcompiles.cached⟩
      · rw [hfails.answer] at h
        cases h

theorem compileNamed_succeeds_iff (hc : Coherent s c) (hvalidated : s.isExcluded name = false) :
    (∃ v c', s.compileNamed c name = .ok (v, c')) ↔ s.Compilable name := by
  constructor
  · rintro ⟨v, c', hok⟩
    obtain ⟨hupdate, hget⟩ := compileNamed_ok hok
    exact (hupdate.coherent hc).compilable hvalidated (contains_iff.mpr ⟨v, hget⟩)
  · intro hcompilable
    cases hget : c.get? name with
    | some v => exact ⟨v, c, compileNamed_cached hget⟩
    | none =>
      rcases compileNamed_fresh hget hvalidated with ⟨pending, v, hcompiles⟩ | ⟨e, hfails⟩
      · exact ⟨v, c.commit pending, hcompiles.answer⟩
      · exact absurd hcompilable hfails.broken

/-- A compiled type adds the types that it leads to. -/
theorem compileNamed_contains_iff (hc : Coherent s c) (hvalidated : s.isExcluded name = false)
    (h : s.compileNamed c name = .ok (v, c')) (other : TypeName) :
    c'.contains other = true ↔ c.contains other = true ∨ s.Reaches name other := by
  obtain ⟨hupdate, hcached⟩ := compileNamed_ok h
  constructor
  · cases hget : c.get? name with
    | some w =>
      rw [compileNamed_cached hget] at h
      cases h
      exact Or.inl
    | none =>
      rcases compileNamed_fresh hget hvalidated with ⟨pending, w, hcompiles⟩ | ⟨e, hfails⟩
      · rw [hcompiles.answer] at h
        cases h
        rw [contains_commit hcompiles.pass hcompiles.grows, knows_iff, contains_iff]
        rintro (⟨p, hp⟩ | hother)
        · exact Or.inr (hcompiles.grows.allows hp Table.get?_nil)
        · exact Or.inl hother
      · rw [hfails.answer] at h
        cases h
  · rintro (hother | hreach)
    · exact hupdate.extends.contains hother
    · exact (hupdate.coherent hc).reaches hvalidated (contains_iff.mpr ⟨v, hcached⟩) hreach

end Store

end Conform
