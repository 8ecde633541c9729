import Conform.Proofs.Nullability
import Conform.Sharing
import Mathlib.Data.Nat.Find

/-!
# Work under interference

A clone cannot rely on a shared cache to stay as it is, only on what all clones
promise: that it grows, and that every validator in it is the one its type
would get alone. Work that is safe under that promise, and keeps it, comes to
the same whoever takes turns with it.
-/

namespace Conform

open Cache

namespace Cache

variable {s : Store} {c c' last : Cache}

/-- What may have become of a cache: it has grown, and is literal. -/
structure Later (s : Store) (c c' : Cache) : Prop where
  grows : c.Extends c'
  literal : Literal s c'

theorem Later.refl (hc : Literal s c) : Later s c c := ⟨Extends.refl c, hc⟩

theorem Later.trans (h : Later s c c') (hlast : Later s c' last) : Later s c last :=
  ⟨h.grows.trans hlast.grows, hlast.literal⟩

end Cache

namespace Work

variable {α β : Type} {s : Store} {c c' : Cache} {P Q : α → Cache → Prop} {R : β → Cache → Prop}

/--
The work keeps a literal cache literal and comes to what is said, whatever
others do to the cache between its steps, as long as they keep it literal too.
-/
def Safe (s : Store) (Q : α → Cache → Prop) : Work α → Cache → Prop
  | done a, c => ∀ c', Later s c c' → Q a c'
  | get name next, c => ∀ c', Later s c c' → (next (c'.get? name)).Safe s Q c'
  | contains name next, c => ∀ c', Later s c c' → (next (c'.contains name)).Safe s Q c'
  | insert name v next, c => ∀ c', Later s c c' → Literal s (c'.insert name v) ∧
      (next (((c'.insert name v).get? name).getD v)).Safe s Q (c'.insert name v)

theorem Safe.grow {x : Work α} (h : x.Safe s Q c) (hlater : Later s c c') : x.Safe s Q c' := by
  cases x with
  | done a => exact fun last hlast => h last (hlater.trans hlast)
  | get name next => exact fun last hlast => h last (hlater.trans hlast)
  | contains name next => exact fun last hlast => h last (hlater.trans hlast)
  | insert name v next => exact fun last hlast => h last (hlater.trans hlast)

theorem Safe.bind {x : Work α} {f : α → Work β} (hx : x.Safe s P c) (hc : Literal s c)
    (hf : ∀ a c', Later s c c' → P a c' → (f a).Safe s R c') : (x >>= f).Safe s R c := by
  change (x.bind f).Safe s R c
  induction x generalizing c with
  | done a => exact hf a c (Later.refl hc) (hx c (Later.refl hc))
  | get name next ih =>
    intro c' hlater
    exact ih _ (hx c' hlater) hlater.literal fun a last hlast => hf a last (hlater.trans hlast)
  | contains name next ih =>
    intro c' hlater
    exact ih _ (hx c' hlater) hlater.literal fun a last hlast => hf a last (hlater.trans hlast)
  | insert name v next ih =>
    intro c' hlater
    obtain ⟨hliteral, hnext⟩ := hx c' hlater
    have hinsert : Later s c (c'.insert name v) :=
      hlater.trans ⟨extends_insert name v, hliteral⟩
    exact ⟨hliteral, ih _ hnext hliteral fun a last hlast => hf a last (hinsert.trans hlast)⟩

theorem Safe.weaken {x : Work α} (h : x.Safe s P c) (hc : Literal s c)
    (hPQ : ∀ a c', Later s c c' → P a c' → Q a c') : x.Safe s Q c := by
  induction x generalizing c with
  | done a => exact fun c' hlater => hPQ a c' hlater (h c' hlater)
  | get name next ih =>
    intro c' hlater
    exact ih _ (h c' hlater) hlater.literal fun a last hlast => hPQ a last (hlater.trans hlast)
  | contains name next ih =>
    intro c' hlater
    exact ih _ (h c' hlater) hlater.literal fun a last hlast => hPQ a last (hlater.trans hlast)
  | insert name v next ih =>
    intro c' hlater
    obtain ⟨hliteral, hnext⟩ := h c' hlater
    have hinsert : Later s c (c'.insert name v) :=
      hlater.trans ⟨extends_insert name v, hliteral⟩
    exact ⟨hliteral, ih _ hnext hliteral fun a last hlast => hPQ a last (hinsert.trans hlast)⟩

/-- Alone, safe work comes to what is said. -/
theorem Safe.alone {x : Work α} (h : x.Safe s Q c) (hc : Literal s c) :
    Q (x.alone c).1 (x.alone c).2 := by
  induction x generalizing c with
  | done a => exact h c (Later.refl hc)
  | get name next ih => exact ih _ (h c (Later.refl hc)) hc
  | contains name next ih => exact ih _ (h c (Later.refl hc)) hc
  | insert name v next ih =>
    obtain ⟨hliteral, hnext⟩ := h c (Later.refl hc)
    exact ih _ hnext hliteral

end Work

namespace Clones

variable {ι : Type} {s : Store} {cs : Clones ι} {Q : ι → Verdict → Cache → Prop}

/-- The cache is literal, and every clone will come to what is said of it. -/
structure Safe (s : Store) (Q : ι → Verdict → Cache → Prop) (cs : Clones ι) : Prop where
  literal : Literal s cs.cache
  safe : ∀ i, (cs.works i).Safe s (Q i) cs.cache

theorem works_of_answer? {i : ι} {verdict : Verdict} (h : cs.answer? i = some verdict) :
    cs.works i = .done verdict := by
  unfold answer? at h
  split at h
  · next hdone =>
    cases h
    exact hdone
  · cases h

/-- What a clone has answered is what was said of it. -/
theorem Safe.answers (h : cs.Safe s Q) {i : ι} {verdict : Verdict}
    (hanswer : cs.answer? i = some verdict) : Q i verdict cs.cache := by
  have hsafe := h.safe i
  rw [works_of_answer? hanswer] at hsafe
  exact hsafe cs.cache (Later.refl h.literal)

variable [DecidableEq ι]

theorem Safe.step (h : cs.Safe s Q) (i : ι) : (cs.step i).Safe s Q := by
  have hstep : Later s cs.cache (cs.step i).cache ∧
      ((cs.works i).step cs.cache).1.Safe s (Q i) (cs.step i).cache := by
    have hsafe := h.safe i
    have hrefl := Later.refl h.literal
    unfold Clones.step
    cases hwork : cs.works i with
    | done verdict => rw [hwork] at hsafe; exact ⟨hrefl, hsafe⟩
    | get name next => rw [hwork] at hsafe; exact ⟨hrefl, hsafe cs.cache hrefl⟩
    | contains name next => rw [hwork] at hsafe; exact ⟨hrefl, hsafe cs.cache hrefl⟩
    | insert name v next =>
      rw [hwork] at hsafe
      obtain ⟨hliteral, hnext⟩ := hsafe cs.cache hrefl
      exact ⟨⟨extends_insert name v, hliteral⟩, hnext⟩
  refine ⟨hstep.1.literal, fun j => ?_⟩
  change (if j = i then ((cs.works i).step cs.cache).1 else cs.works j).Safe s (Q j) _
  by_cases heq : j = i
  · rw [if_pos heq, heq]
    exact hstep.2
  · rw [if_neg heq]
    exact (h.safe j).grow hstep.1

theorem Safe.run (h : cs.Safe s Q) (turns : List ι) : (cs.run turns).Safe s Q := by
  unfold Clones.run
  induction turns generalizing cs with
  | nil => exact h
  | cons i rest ih => exact ih (h.step i)

section Turns

variable {turn : Nat → ι} {i : ι}

theorem works_step (cs : Clones ι) (i : ι) :
    (cs.step i).works i = ((cs.works i).step cs.cache).1 := if_pos rfl

theorem works_step_of_ne (cs : Clones ι) {j : ι} (hne : i ≠ j) : (cs.step j).works i = cs.works i :=
  if_neg hne

theorem upTo_succ (cs : Clones ι) (turn : Nat → ι) (n : Nat) :
    cs.upTo turn (n + 1) = (cs.upTo turn n).step (turn n) := by
  unfold upTo run
  rw [List.range_succ, List.map_append, List.foldl_append]
  rfl

/-- Until its next turn, a clone stays where it is. -/
theorem works_upTo_of_waiting {n m : Nat} (hle : n ≤ m) (hwaits : ∀ k, n ≤ k → k < m → turn k ≠ i) :
    (cs.upTo turn m).works i = (cs.upTo turn n).works i := by
  induction m, hle using Nat.le_induction with
  | base => rfl
  | succ m hle ih =>
    rw [upTo_succ, works_step_of_ne _ (hwaits m hle (Nat.lt_succ_self m)).symm]
    exact ih fun k hfrom hto => hwaits k hfrom (hto.trans (Nat.lt_succ_self m))

variable (hfair : ∀ n, ∃ m, n ≤ m ∧ turn m = i)

include hfair

theorem exists_next_turn (cs : Clones ι) (n : Nat) : ∃ m, (cs.upTo turn (m + 1)).works i =
    (((cs.upTo turn n).works i).step (cs.upTo turn m).cache).1 := by
  obtain ⟨hfrom, hturn⟩ := Nat.find_spec (hfair n)
  have hwaits : ∀ k, n ≤ k → k < Nat.find (hfair n) → turn k ≠ i :=
    fun k hk hbefore heq => Nat.find_min (hfair n) hbefore ⟨hk, heq⟩
  refine ⟨Nat.find (hfair n), ?_⟩
  rw [upTo_succ, hturn, works_step, works_upTo_of_waiting hfrom hwaits]

/-- A clone that gets turns again and again has answered at some point. -/
theorem eventually_answers (cs : Clones ι) :
    ∃ n verdict, (cs.upTo turn n).answer? i = some verdict := by
  have hsteps : ∀ (work : Work Verdict) n, (cs.upTo turn n).works i = work →
      ∃ m verdict, (cs.upTo turn m).answer? i = some verdict := by
    intro work
    induction work with
    | done verdict =>
      intro n hn
      exact ⟨n, verdict, by rw [answer?, hn]⟩
    | get name next ih =>
      intro n hn
      obtain ⟨m, hm⟩ := exists_next_turn hfair cs n
      rw [hn] at hm
      exact ih _ (m + 1) hm
    | contains name next ih =>
      intro n hn
      obtain ⟨m, hm⟩ := exists_next_turn hfair cs n
      rw [hn] at hm
      exact ih _ (m + 1) hm
    | insert name v next ih =>
      intro n hn
      obtain ⟨m, hm⟩ := exists_next_turn hfair cs n
      rw [hn] at hm
      exact ih _ (m + 1) hm
  exact hsteps _ 0 rfl

end Turns

end Clones

end Conform
