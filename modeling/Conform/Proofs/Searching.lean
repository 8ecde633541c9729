import Conform.Pattern.Search

/-!
# Searching and matching

The marks of a search stand for the places that matches reach: a place is
marked after an expression where a match of it ends that began at a marked
place. A text contains a match of an expression between its ends if the
expression matches all of it.
-/

namespace Conform

namespace Pattern

section Times

variable {α : Type} {R : α → α → Prop} {a b c : α}

/-- So many steps of a relation. -/
inductive Times (R : α → α → Prop) : Nat → α → α → Prop where
  | zero (a : α) : Times R 0 a a
  | succ {count : Nat} {a b c : α} : R a b → Times R count b c → Times R (count + 1) a c

theorem Times.eq_of_zero (h : Times R 0 a b) : a = b := by
  cases h
  rfl

end Times

namespace Expr

section Repetition

variable {e : Expr}

/-- A place of a text: the characters before it, last first, and those after it. -/
abbrev Place := List Char × List Char

/-- A match between two places. -/
def Links (e : Expr) (p q : Place) : Prop := e.Matches p.1 p.2 q.1 q.2

theorem links_rep_zero_none {p q : Place} :
    (rep e 0 none).Links p q ↔ ∃ count, Times e.Links count p q := by
  constructor
  · obtain ⟨before, after⟩ := p
    obtain ⟨before', after'⟩ := q
    intro h
    change Matches (rep e 0 none) before after before' after' at h
    generalize hrep : rep e 0 none = r at h
    induction h with
    | repDone => exact ⟨0, .zero _⟩
    | repFree first _ _ ih =>
      cases hrep
      obtain ⟨count, htimes⟩ := ih rfl
      exact ⟨count + 1, .succ (b := (_, _)) first htimes⟩
    | _ => cases hrep
  · rintro ⟨count, h⟩
    induction h with
    | zero p => exact .repDone _ _
    | succ hstep _ ih => exact .repFree hstep ih

theorem links_rep_zero_some {high : Nat} {p q : Place} :
    (rep e 0 (some high)).Links p q ↔ ∃ count ≤ high, Times e.Links count p q := by
  induction high generalizing p with
  | zero =>
    constructor
    · obtain ⟨before, after⟩ := p
      obtain ⟨before', after'⟩ := q
      intro h
      cases h
      exact ⟨0, Nat.le_refl 0, .zero _⟩
    · rintro ⟨count, hle, h⟩
      cases Nat.le_zero.mp hle
      cases h.eq_of_zero
      exact .repDone _ _
  | succ high ih =>
    constructor
    · obtain ⟨before, after⟩ := p
      obtain ⟨before', after'⟩ := q
      intro h
      cases h with
      | repDone => exact ⟨0, Nat.zero_le _, .zero _⟩
      | repBounded first more =>
        obtain ⟨count, hle, htimes⟩ := (ih (p := (_, _))).mp more
        exact ⟨count + 1, Nat.succ_le_succ hle, .succ (b := (_, _)) first htimes⟩
    · rintro ⟨count, hle, h⟩
      cases h with
      | zero => exact .repDone _ _
      | succ hstep hrest => exact .repBounded hstep (ih.mpr ⟨_, Nat.le_of_succ_le_succ hle, hrest⟩)

theorem links_rep {low : Nat} {high : Option Nat} {p q : Place} :
    (rep e low high).Links p q ↔ ∃ between, Times e.Links low p between ∧
      (rep e 0 (high.map (· - low))).Links between q := by
  induction low generalizing high p with
  | zero =>
    have hmap : high.map (· - 0) = high := by cases high <;> rfl
    rw [hmap]
    constructor
    · exact fun h => ⟨p, .zero p, h⟩
    · rintro ⟨between, h, hrest⟩
      cases h.eq_of_zero
      exact hrest
  | succ low ih =>
    have hmap : (high.map (· - 1)).map (· - low) = high.map (· - (low + 1)) := by
      cases high with
      | none => rfl
      | some high => exact congrArg some (by dsimp only; omega)
    constructor
    · obtain ⟨before, after⟩ := p
      obtain ⟨before', after'⟩ := q
      intro h
      cases h with
      | repNeeded first more =>
        obtain ⟨between, htimes, hrest⟩ := (ih (p := (_, _))).mp more
        exact ⟨between, .succ (b := (_, _)) first htimes, hmap ▸ hrest⟩
    · rintro ⟨between, h, hrest⟩
      cases h with
      | succ hstep htimes => exact .repNeeded hstep (ih.mpr ⟨between, htimes, hmap ▸ hrest⟩)

end Repetition

end Expr

namespace Marks

variable {m m' : Marks} {i j : Nat}

/-- A place is marked. -/
def At (m : Marks) (i : Nat) : Prop := m[i]? = some true

theorem At.lt (h : m.At i) : i < m.length := (List.getElem?_eq_some_iff.mp h).1

theorem not_isEmpty_iff : m.isEmpty = false ↔ ∃ i, m.At i := by
  unfold isEmpty At
  rw [Bool.not_eq_false', List.any_eq_true]
  constructor
  · rintro ⟨mark, hmem, hmark⟩
    obtain ⟨i, hi⟩ := List.getElem?_of_mem hmem
    exact ⟨i, hi.trans (congrArg some hmark)⟩
  · rintro ⟨i, hi⟩
    exact ⟨true, List.mem_of_getElem? hi, rfl⟩

theorem length_union (h : m.length = m'.length) : (m.union m').length = m.length := by
  rw [union, List.length_zipWith, ← h, Nat.min_self]

theorem at_union (h : m.length = m'.length) : (m.union m').At i ↔ m.At i ∨ m'.At i := by
  unfold union At
  rw [List.getElem?_zipWith]
  by_cases hi : i < m.length
  · rw [List.getElem?_eq_getElem hi, List.getElem?_eq_getElem (h ▸ hi)]
    simp
  · rw [List.getElem?_eq_none (Nat.not_lt.mp hi), List.getElem?_eq_none (h ▸ Nat.not_lt.mp hi)]
    simp

/-- Marks that are joined by others become fewer to come, or were there before. -/
theorem count_union_lt (h : m.length = m'.length) (hne : m.union m' ≠ m) :
    (m.union m').count false < m.count false := by
  induction m generalizing m' with
  | nil => exact absurd (by cases m' <;> rfl) hne
  | cons a m ih =>
    cases m' with
    | nil => cases h
    | cons b m' =>
      change List.count false ((a || b) :: union m m') < List.count false (a :: m)
      have hlen := Nat.succ.inj h
      by_cases heq : union m m' = m
      · -- then the first mark is new
        have hnew : ∀ a b : Bool, (a || b) ≠ a → a = false ∧ b = true := by decide
        have hhead : (a || b) ≠ a := fun h => hne (by
          change (a || b) :: union m m' = a :: m
          rw [h, heq])
        obtain ⟨rfl, rfl⟩ := hnew a b hhead
        rw [heq]
        simp
      · have hlt := ih hlen heq
        cases a <;> cases b <;> simp <;> omega

end Marks

/-- Marks follow a relation: those after a function are related to those before it. -/
def Follows (size : Nat) (f : Marks → Marks) (R : Nat → Nat → Prop) : Prop :=
  ∀ m : Marks, m.length = size →
    (f m).length = size ∧ ∀ j, (f m).At j ↔ ∃ i, m.At i ∧ R i j

section Following

variable {size : Nat} {f g : Marks → Marks} {R S : Nat → Nat → Prop}

theorem Follows.congr (h : Follows size f R) (hRS : ∀ i j, i < size → (R i j ↔ S i j)) :
    Follows size f S := by
  intro m hm
  obtain ⟨hlen, hat⟩ := h m hm
  refine ⟨hlen, fun j => (hat j).trans ?_⟩
  exact exists_congr fun i => and_congr_right fun hi => hRS i j (hm ▸ hi.lt)

theorem follows_id : Follows size id Eq := by
  refine fun m hm => ⟨hm, fun j => ⟨fun h => ⟨j, h, rfl⟩, ?_⟩⟩
  rintro ⟨i, hi, rfl⟩
  exact hi

theorem Follows.comp (hf : Follows size f R) (hg : Follows size g S) :
    Follows size (fun m => g (f m)) fun i j => ∃ h, R i h ∧ S h j := by
  intro m hm
  obtain ⟨hlen, hat⟩ := hf m hm
  obtain ⟨hlen', hat'⟩ := hg (f m) hlen
  refine ⟨hlen', fun j => ?_⟩
  rw [hat']
  constructor
  · rintro ⟨h, hh, hS⟩
    obtain ⟨i, hi, hR⟩ := (hat h).mp hh
    exact ⟨i, hi, h, hR, hS⟩
  · rintro ⟨i, hi, h, hR, hS⟩
    exact ⟨h, (hat h).mpr ⟨i, hi, hR⟩, hS⟩

theorem Follows.union (hf : Follows size f R) (hg : Follows size g S) :
    Follows size (fun m => (f m).union (g m)) fun i j => R i j ∨ S i j := by
  intro m hm
  obtain ⟨hlen, hat⟩ := hf m hm
  obtain ⟨hlen', hat'⟩ := hg m hm
  have hsame := hlen.trans hlen'.symm
  refine ⟨(Marks.length_union hsame).trans hlen, fun j => ?_⟩
  rw [Marks.at_union hsame, hat, hat', ← exists_or]
  exact exists_congr fun i => and_or_left.symm

/-- Where a step changes nothing, no number of steps does. -/
theorem Follows.stays (hf : Follows size f R) {m : Marks} (hm : m.length = size) (hfix : f m = m)
    (count : Nat) (j : Nat) : (∃ i, m.At i ∧ Times R count i j) ↔ m.At j := by
  have hstep : ∀ h, m.At h ↔ ∃ i, m.At i ∧ R i h := fun h => by
    have hat := (hf m hm).2 h
    rwa [hfix] at hat
  induction count generalizing j with
  | zero =>
    refine ⟨?_, fun h => ⟨j, h, .zero j⟩⟩
    rintro ⟨i, hi, h⟩
    exact h.eq_of_zero ▸ hi
  | succ count ih =>
    constructor
    · rintro ⟨i, hi, h⟩
      cases h with
      | succ hR htimes => exact (ih j).mp ⟨_, (hstep _).mpr ⟨i, hi, hR⟩, htimes⟩
    · intro hj
      obtain ⟨h, hh, htimes⟩ := (ih j).mpr hj
      obtain ⟨i, hi, hR⟩ := (hstep h).mp hh
      exact ⟨i, hi, .succ hR htimes⟩

theorem Follows.repeated (hf : Follows size f R) (count : Nat) :
    Follows size (Expr.repeated f count) (Times R count) := by
  intro m hm
  induction count generalizing m with
  | zero =>
    refine ⟨hm, fun j => ⟨fun h => ⟨j, h, .zero j⟩, ?_⟩⟩
    rintro ⟨i, hi, h⟩
    exact h.eq_of_zero ▸ hi
  | succ count ih =>
    by_cases hfix : f m = m
    · have hrepeated : Expr.repeated f (count + 1) m = m := if_pos hfix
      rw [hrepeated]
      exact ⟨hm, fun j => (hf.stays hm hfix _ j).symm⟩
    · have hrepeated : Expr.repeated f (count + 1) m = Expr.repeated f count (f m) := if_neg hfix
      obtain ⟨hlen, hat⟩ := hf m hm
      obtain ⟨hlen', hat'⟩ := ih (f m) hlen
      rw [hrepeated]
      refine ⟨hlen', fun j => (hat' j).trans ?_⟩
      constructor
      · rintro ⟨h, hh, htimes⟩
        obtain ⟨i, hi, hR⟩ := (hat h).mp hh
        exact ⟨i, hi, .succ hR htimes⟩
      · rintro ⟨i, hi, h⟩
        cases h with
        | succ hR htimes => exact ⟨_, (hat _).mpr ⟨i, hi, hR⟩, htimes⟩

/-- Where joining the next marks changes nothing, they are among the marks already. -/
theorem Follows.closed (hf : Follows size f R) {m : Marks} (hm : m.length = size)
    (hfix : m.union (f m) = m) {i j count : Nat} (hi : m.At i) (h : Times R count i j) : m.At j := by
  obtain ⟨hlen, hat⟩ := hf m hm
  induction h with
  | zero => exact hi
  | succ hR _ ih =>
    refine ih ?_
    rw [← hfix, Marks.at_union (hm.trans hlen.symm)]
    exact .inr ((hat _).mpr ⟨_, hi, hR⟩)

theorem Follows.closure (hf : Follows size f R) (fuel : Nat) :
    Follows size (Expr.closure f fuel) fun i j => ∃ count ≤ fuel, Times R count i j := by
  intro m hm
  induction fuel generalizing m with
  | zero =>
    refine ⟨hm, fun j => ⟨fun h => ⟨j, h, 0, Nat.le_refl 0, .zero j⟩, ?_⟩⟩
    rintro ⟨i, hi, count, hle, h⟩
    cases Nat.le_zero.mp hle
    exact h.eq_of_zero ▸ hi
  | succ fuel ih =>
    obtain ⟨hlen, hat⟩ := hf m hm
    have hsame : m.length = (f m).length := hm.trans hlen.symm
    by_cases hfix : m.union (f m) = m
    · have hclosure : Expr.closure f (fuel + 1) m = m := if_pos hfix
      rw [hclosure]
      refine ⟨hm, fun j => ⟨fun h => ⟨j, h, 0, Nat.zero_le _, .zero j⟩, ?_⟩⟩
      rintro ⟨i, hi, count, -, h⟩
      exact hf.closed hm hfix hi h
    · have hclosure : Expr.closure f (fuel + 1) m = Expr.closure f fuel (m.union (f m)) :=
        if_neg hfix
      obtain ⟨hlen', hat'⟩ := ih (m.union (f m)) ((Marks.length_union hsame).trans hm)
      rw [hclosure]
      refine ⟨hlen', fun j => (hat' j).trans ?_⟩
      constructor
      · rintro ⟨h, hh, count, hle, htimes⟩
        obtain hi | hi := (Marks.at_union hsame).mp hh
        · exact ⟨h, hi, count, Nat.le_succ_of_le hle, htimes⟩
        · obtain ⟨i, hi, hR⟩ := (hat h).mp hi
          exact ⟨i, hi, count + 1, Nat.succ_le_succ hle, .succ hR htimes⟩
      · rintro ⟨i, hi, count, hle, h⟩
        cases h with
        | zero => exact ⟨_, (Marks.at_union hsame).mpr (.inl hi), 0, Nat.zero_le _, .zero _⟩
        | succ hR htimes =>
          exact ⟨_, (Marks.at_union hsame).mpr (.inr ((hat _).mpr ⟨i, hi, hR⟩)), _,
            Nat.le_of_succ_le_succ hle, htimes⟩

/-- With as many rounds as places that are not marked yet, nothing is left to be joined. -/
theorem Follows.closure_fixed (hf : Follows size f R) {fuel : Nat} {m : Marks}
    (hm : m.length = size) (hfuel : m.count false ≤ fuel) :
    (Expr.closure f fuel m).union (f (Expr.closure f fuel m)) = Expr.closure f fuel m := by
  induction fuel generalizing m with
  | zero =>
    -- every place is marked
    refine Decidable.byContradiction fun hne => ?_
    have hlt := Marks.count_union_lt (hm.trans (hf m hm).1.symm) hne
    exact Nat.not_lt_zero _ (Nat.lt_of_lt_of_le hlt hfuel)
  | succ fuel ih =>
    have hsame : m.length = (f m).length := hm.trans (hf m hm).1.symm
    by_cases hfix : m.union (f m) = m
    · have hclosure : Expr.closure f (fuel + 1) m = m := if_pos hfix
      rw [hclosure, hfix]
    · have hclosure : Expr.closure f (fuel + 1) m = Expr.closure f fuel (m.union (f m)) :=
        if_neg hfix
      have hlt := Marks.count_union_lt hsame hfix
      rw [hclosure]
      exact ih ((Marks.length_union hsame).trans hm) (by omega)

theorem Follows.closure_all (hf : Follows size f R) :
    Follows size (Expr.closure f size) fun i j => ∃ count, Times R count i j := by
  intro m hm
  obtain ⟨hlen, hat⟩ := hf.closure size m hm
  refine ⟨hlen, fun j => ?_⟩
  constructor
  · intro h
    obtain ⟨i, hi, count, -, htimes⟩ := (hat j).mp h
    exact ⟨i, hi, count, htimes⟩
  · rintro ⟨i, hi, count, htimes⟩
    have hstart := (hat i).mpr ⟨i, hi, 0, Nat.zero_le _, .zero i⟩
    have hcount : m.count false ≤ size := hm ▸ List.count_le_length
    exact hf.closed hlen (hf.closure_fixed hm hcount) hstart htimes

end Following

namespace Expr

section Ends

variable {e a b : Expr} {t : List Char} {i j : Nat}

/-- A place of a text by its number. -/
def place (t : List Char) (i : Nat) : Place := ((t.take i).reverse, t.drop i)

theorem place_injective (hi : i ≤ t.length) (hj : j ≤ t.length) (h : place t i = place t j) :
    i = j := by
  have hlen := congrArg (fun p : Place => p.1.length) h
  simpa only [place, List.length_reverse, List.length_take, Nat.min_eq_left hi,
    Nat.min_eq_left hj] using hlen

/-- A match leads from one place to another of the same text. -/
theorem Links.text {p q : Place} (h : e.Links p q) :
    q.1.reverse ++ q.2 = p.1.reverse ++ p.2 := by
  obtain ⟨before, after⟩ := p
  obtain ⟨before', after'⟩ := q
  change e.Matches before after before' after' at h
  induction h with
  | char => simp
  | seq _ _ ih ih' => exact ih'.trans ih
  | altLeft _ ih | altRight _ ih | group _ ih => exact ih
  | repNeeded _ _ ih ih' | repFree _ _ ih ih' | repBounded _ _ ih ih' => exact ih'.trans ih
  | _ => rfl

theorem Links.place {q : Place} (h : e.Links (place t i) q) :
    ∃ j ≤ t.length, q = Expr.place t j := by
  have htext : q.1.reverse ++ q.2 = t := by
    rw [h.text, Expr.place, List.reverse_reverse, List.take_append_drop]
  refine ⟨q.1.length, ?_, ?_⟩
  · rw [← htext, List.length_append, List.length_reverse]
    exact Nat.le_add_right _ _
  · rw [← htext, Expr.place, ← List.length_reverse, List.take_left, List.drop_left,
      List.reverse_reverse]

/-- A match between two places of a text, by their numbers. -/
def Reaches (e : Expr) (t : List Char) (i j : Nat) : Prop :=
  j ≤ t.length ∧ e.Links (place t i) (place t j)

theorem links_place_iff {q : Place} :
    e.Links (place t i) q ↔ ∃ j, q = place t j ∧ e.Reaches t i j := by
  constructor
  · intro h
    obtain ⟨j, hj, rfl⟩ := h.place
    exact ⟨j, rfl, hj, h⟩
  · rintro ⟨j, rfl, -, h⟩
    exact h

theorem times_place_iff {count : Nat} {q : Place} (hi : i ≤ t.length) :
    Times e.Links count (place t i) q ↔
      ∃ j ≤ t.length, q = place t j ∧ Times (e.Reaches t) count i j := by
  induction count generalizing i with
  | zero =>
    constructor
    · intro h
      cases h.eq_of_zero
      exact ⟨i, hi, rfl, .zero i⟩
    · rintro ⟨j, -, rfl, h⟩
      cases h.eq_of_zero
      exact .zero _
  | succ count ih =>
    constructor
    · intro h
      cases h with
      | succ hstep hrest =>
        obtain ⟨h, rfl, hreaches⟩ := links_place_iff.mp hstep
        obtain ⟨j, hj, rfl, htimes⟩ := (ih hreaches.1).mp hrest
        exact ⟨j, hj, rfl, .succ hreaches htimes⟩
    · rintro ⟨j, hj, rfl, h⟩
      cases h with
      | succ hreaches htimes =>
        exact .succ hreaches.2 ((ih hreaches.1).mpr ⟨j, hj, rfl, htimes⟩)

theorem times_le {count : Nat} (hi : i ≤ t.length) (h : Times (e.Reaches t) count i j) :
    j ≤ t.length := by
  induction h with
  | zero => exact hi
  | succ hstep _ ih => exact ih hstep.1

theorem times_place {count : Nat} (hi : i ≤ t.length) (hj : j ≤ t.length) :
    Times e.Links count (place t i) (place t j) ↔ Times (e.Reaches t) count i j := by
  rw [times_place_iff hi]
  constructor
  · rintro ⟨j', hj', heq, h⟩
    exact place_injective hj hj' heq ▸ h
  · exact fun h => ⟨j, hj, rfl, h⟩

theorem links_empty {p q : Place} : empty.Links p q ↔ p = q := by
  obtain ⟨before, after⟩ := p
  obtain ⟨before', after'⟩ := q
  constructor
  · intro h
    cases h
    rfl
  · rintro ⟨⟩
    exact .empty _ _

theorem reaches_empty (hi : i ≤ t.length) : i = j ↔ empty.Reaches t i j := by
  constructor
  · rintro rfl
    exact ⟨hi, links_empty.mpr rfl⟩
  · rintro ⟨hj, h⟩
    exact place_injective hi hj (links_empty.mp h)

theorem links_char {set : CharSet} {p q : Place} :
    (char set).Links p q ↔ ∃ c after, p.2 = c :: after ∧ set.mem c = true ∧ q = (c :: p.1, after) := by
  obtain ⟨before, after⟩ := p
  obtain ⟨before', after'⟩ := q
  constructor
  · intro h
    change (char set).Matches before after before' after' at h
    cases h with
    | char member => exact ⟨_, _, rfl, member, rfl⟩
  · rintro ⟨c, rest, hafter, hmem, heq⟩
    obtain rfl : after = c :: rest := hafter
    obtain ⟨rfl, rfl⟩ := Prod.mk.inj heq
    exact .char hmem

theorem place_succ (hi : i < t.length) :
    place t i = ((t.take i).reverse, t[i] :: t.drop (i + 1)) ∧
      place t (i + 1) = (t[i] :: (t.take i).reverse, t.drop (i + 1)) := by
  constructor
  · rw [place, List.drop_eq_getElem_cons hi]
  · rw [place, List.take_succ_eq_append_getElem hi, List.reverse_concat]

theorem reaches_char {set : CharSet} : (char set).Reaches t i j ↔
    j = i + 1 ∧ ∃ h : i < t.length, set.mem t[i] = true := by
  constructor
  · rintro ⟨hj, h⟩
    obtain ⟨c, after, hafter, hmem, heq⟩ := links_char.mp h
    have hi : i < t.length := by
      refine Nat.lt_of_not_le fun hle => ?_
      cases (List.drop_eq_nil_of_le hle).symm.trans hafter
    obtain ⟨hplace, hnext⟩ := place_succ hi
    rw [hplace] at hafter heq
    cases hafter
    exact ⟨place_injective hj hi (heq.trans hnext.symm), hi, hmem⟩
  · rintro ⟨rfl, hi, hmem⟩
    obtain ⟨hplace, hnext⟩ := place_succ hi
    exact ⟨hi, links_char.mpr ⟨_, _, congrArg Prod.snd hplace, hmem, hnext⟩⟩

theorem links_look {a : Assertion} {p q : Place} :
    (look a).Links p q ↔ p = q ∧ a.holds p.1.head? p.2.head? = true := by
  obtain ⟨before, after⟩ := p
  obtain ⟨before', after'⟩ := q
  constructor
  · intro h
    cases h with
    | look holds => exact ⟨rfl, holds⟩
  · rintro ⟨⟨⟩, h⟩
    exact .look h

theorem reaches_look {a : Assertion} (hi : i ≤ t.length) : (look a).Reaches t i j ↔
    i = j ∧ a.holds (place t i).1.head? (place t i).2.head? = true := by
  constructor
  · rintro ⟨hj, h⟩
    obtain ⟨heq, hholds⟩ := links_look.mp h
    exact ⟨place_injective hi hj heq, hholds⟩
  · rintro ⟨rfl, h⟩
    exact ⟨hi, links_look.mpr ⟨rfl, h⟩⟩

theorem reaches_seq : (∃ h, a.Reaches t i h ∧ b.Reaches t h j) ↔ (seq a b).Reaches t i j := by
  constructor
  · rintro ⟨h, hfirst, hj, hsecond⟩
    exact ⟨hj, .seq hfirst.2 hsecond⟩
  · rintro ⟨hj, h⟩
    cases h with
    | @seq _ _ _ _ before after _ _ first second =>
      obtain ⟨h, heq, hreaches⟩ := links_place_iff.mp (show a.Links _ (before, after) from first)
      refine ⟨h, hreaches, hj, ?_⟩
      rw [← heq]
      exact second

theorem reaches_alt : (a.Reaches t i j ∨ b.Reaches t i j) ↔ (alt a b).Reaches t i j := by
  constructor
  · rintro (⟨hj, h⟩ | ⟨hj, h⟩)
    · exact ⟨hj, .altLeft h⟩
    · exact ⟨hj, .altRight h⟩
  · rintro ⟨hj, h⟩
    cases h with
    | altLeft h => exact .inl ⟨hj, h⟩
    | altRight h => exact .inr ⟨hj, h⟩

theorem reaches_group : e.Reaches t i j ↔ (group e).Reaches t i j := by
  constructor
  · rintro ⟨hj, h⟩
    exact ⟨hj, .group h⟩
  · rintro ⟨hj, h⟩
    cases h with
    | group h => exact ⟨hj, h⟩

theorem reaches_rep (low : Nat) (high : Option Nat) (counts : Nat → Prop)
    (hrep : ∀ {p q : Place}, (rep e 0 (high.map (· - low))).Links p q ↔
      ∃ count, counts count ∧ Times e.Links count p q) (hi : i ≤ t.length) :
    (∃ h, Times (e.Reaches t) low i h ∧ ∃ count, counts count ∧ Times (e.Reaches t) count h j) ↔
      (rep e low high).Reaches t i j := by
  constructor
  · rintro ⟨between, hlow, count, hcount, hrest⟩
    have hbetween := times_le hi hlow
    have hj := times_le hbetween hrest
    exact ⟨hj, links_rep.mpr ⟨place t between, (times_place hi hbetween).mpr hlow,
      hrep.mpr ⟨count, hcount, (times_place hbetween hj).mpr hrest⟩⟩⟩
  · rintro ⟨hj, h⟩
    obtain ⟨between, hlow, hrest⟩ := links_rep.mp h
    obtain ⟨i', hi', rfl, htimes⟩ := (times_place_iff hi).mp hlow
    obtain ⟨count, hcount, hrest⟩ := hrep.mp hrest
    exact ⟨i', htimes, count, hcount, (times_place hi' hj).mp hrest⟩

theorem char_follows (set : CharSet) (t : List Char) :
    Follows (t.length + 1) ((char set).ends (Places.ofChars t)) ((char set).Reaches t) := by
  intro m hm
  have hends : (char set).ends (Places.ofChars t) m =
      false :: List.zipWith (fun mark c => mark && set.mem c) m t := rfl
  refine ⟨?_, fun j => ?_⟩
  · rw [hends, List.length_cons, List.length_zipWith, hm, Nat.min_eq_right (Nat.le_succ _)]
  · rw [hends]
    cases j with
    | zero =>
      refine iff_of_false (fun h => ?_) ?_
      · cases h
      · rintro ⟨i, -, h⟩
        cases (reaches_char.mp h).1
    | succ j =>
      change (List.zipWith (fun mark c => mark && set.mem c) m t)[j]? = some true ↔ _
      constructor
      · intro h
        obtain ⟨mark, c, hmark, hc, heq⟩ := List.getElem?_zipWith_eq_some.mp h
        obtain ⟨hj, rfl⟩ := List.getElem?_eq_some_iff.mp hc
        obtain ⟨rfl, hmem⟩ := Bool.and_eq_true_iff.mp heq
        exact ⟨j, hmark, reaches_char.mpr ⟨rfl, hj, hmem⟩⟩
      · rintro ⟨i, hi, h⟩
        obtain ⟨heq, hlt, hmem⟩ := reaches_char.mp h
        cases heq
        exact List.getElem?_zipWith_eq_some.mpr ⟨true, t[j], hi, List.getElem?_eq_getElem hlt, hmem⟩

/-- The neighbours of a place are the characters next to it. -/
theorem neighbours_getElem? (hj : j ≤ t.length) : (Places.ofChars t).neighbours[j]? =
    some ((place t j).1.head?, (place t j).2.head?) := by
  refine List.getElem?_zip_eq_some.mpr ⟨?_, ?_⟩
  · cases j with
    | zero => rfl
    | succ j =>
      rw [List.getElem?_cons_succ, List.getElem?_map, List.getElem?_eq_getElem hj, (place_succ hj).2]
      rfl
  · obtain hlt | rfl := Nat.lt_or_eq_of_le hj
    · rw [List.getElem?_append_left (by rwa [List.length_map]), List.getElem?_map,
        List.getElem?_eq_getElem hlt, (place_succ hlt).1]
      rfl
    · have hlast : (t.map some ++ [none])[t.length]? = some none := by
        rw [List.getElem?_append_right (Nat.le_of_eq (List.length_map some)), List.length_map,
          Nat.sub_self]
        rfl
      rw [hlast, place, List.drop_length]
      rfl

theorem look_follows (a : Assertion) (t : List Char) :
    Follows (t.length + 1) ((look a).ends (Places.ofChars t)) ((look a).Reaches t) := by
  intro m hm
  have hlen : (Places.ofChars t).neighbours.length = t.length + 1 := by
    simp [Places.ofChars]
  refine ⟨?_, fun j => ?_⟩
  · rw [ends, List.length_zipWith, hm, hlen, Nat.min_self]
  · rw [ends]
    constructor
    · intro h
      obtain ⟨mark, next, hmark, hnext, heq⟩ := List.getElem?_zipWith_eq_some.mp h
      have hj : j ≤ t.length :=
        Nat.le_of_lt_succ (Nat.lt_of_lt_of_eq (List.getElem?_eq_some_iff.mp hnext).1 hlen)
      cases (neighbours_getElem? hj).symm.trans hnext
      obtain ⟨rfl, hholds⟩ := Bool.and_eq_true_iff.mp heq
      exact ⟨j, hmark, (reaches_look hj).mpr ⟨rfl, hholds⟩⟩
    · rintro ⟨i, hi, h⟩
      have hle : i ≤ t.length := Nat.le_of_lt_succ (Nat.lt_of_lt_of_eq hi.lt hm)
      obtain ⟨rfl, hholds⟩ := (reaches_look hle).mp h
      exact List.getElem?_zipWith_eq_some.mpr ⟨true, _, hi, neighbours_getElem? hle, hholds⟩

/-- What follows an expression in a search is what a match of it reaches. -/
theorem ends_follows (e : Expr) (t : List Char) :
    Follows (t.length + 1) (e.ends (Places.ofChars t)) (e.Reaches t) := by
  induction e with
  | empty => exact follows_id.congr fun i j hi => reaches_empty (Nat.le_of_lt_succ hi)
  | char set => exact char_follows set t
  | look a => exact look_follows a t
  | seq a b iha ihb => exact (iha.comp ihb).congr fun i j _ => reaches_seq
  | alt a b iha ihb => exact (iha.union ihb).congr fun i j _ => reaches_alt
  | rep e low high ih =>
    cases high with
    | none =>
      have hrep : ∀ {p q : Place}, (rep e 0 none).Links p q ↔
          ∃ count, True ∧ Times e.Links count p q := by
        intro p q
        simpa only [true_and] using links_rep_zero_none
      refine ((ih.repeated low).comp ih.closure_all).congr fun i j hi => ?_
      simpa only [true_and] using
        reaches_rep low none (fun _ => True) hrep (Nat.le_of_lt_succ hi)
    | some high =>
      refine ((ih.repeated low).comp (ih.closure (high - low))).congr fun i j hi => ?_
      exact reaches_rep low (some high) (· ≤ high - low) links_rep_zero_some
        (Nat.le_of_lt_succ hi)
  | group e ih => exact ih.congr fun i j _ => reaches_group

/-- A text contains a match where a match leads from one of its places to another. -/
theorem isIn_iff {text : String} : e.isIn text = true ↔
    ∃ i j, i ≤ text.toList.length ∧ e.Reaches text.toList i j := by
  have hlen : ((Places.ofChars text.toList).neighbours.map fun _ => true).length =
      text.toList.length + 1 := by
    simp [Places.ofChars]
  have hall : ∀ i, Marks.At ((Places.ofChars text.toList).neighbours.map fun _ => true) i ↔
      i ≤ text.toList.length := fun i => by
    constructor
    · exact fun h => Nat.le_of_lt_succ (Nat.lt_of_lt_of_eq h.lt hlen)
    · intro h
      unfold Marks.At
      rw [List.getElem?_map, neighbours_getElem? h]
      rfl
  obtain ⟨-, hat⟩ := ends_follows e text.toList _ hlen
  rw [isIn, Bool.not_eq_true', Marks.not_isEmpty_iff, exists_comm]
  refine exists_congr fun j => (hat j).trans (exists_congr fun i => ?_)
  rw [hall]

/-- An expression between the ends of the text. -/
def whole (e : Expr) : Expr := .seq (.look .textStart) (.seq (.group e) (.look .textEnd))

theorem reaches_textStart (hi : i ≤ t.length) :
    (look .textStart).Reaches t i j ↔ i = 0 ∧ j = 0 := by
  rw [reaches_look hi]
  cases i with
  | zero => exact ⟨fun h => ⟨rfl, h.1.symm⟩, fun h => ⟨h.2.symm, rfl⟩⟩
  | succ i =>
    refine iff_of_false (fun h => ?_) fun h => Nat.succ_ne_zero i h.1
    rw [(place_succ hi).2] at h
    cases h.2

theorem reaches_textEnd (hi : i ≤ t.length) :
    (look .textEnd).Reaches t i j ↔ i = t.length ∧ j = t.length := by
  rw [reaches_look hi]
  obtain hlt | rfl := Nat.lt_or_eq_of_le hi
  · refine iff_of_false (fun h => ?_) fun h => Nat.ne_of_lt hlt h.1
    rw [(place_succ hlt).1] at h
    cases h.2
  · rw [place, List.drop_length]
    exact ⟨fun h => ⟨rfl, h.1.symm⟩, fun h => ⟨h.2.symm, rfl⟩⟩

theorem reaches_whole (hi : i ≤ t.length) :
    e.whole.Reaches t i j ↔ i = 0 ∧ j = t.length ∧ e.Reaches t i j := by
  unfold whole
  rw [← reaches_seq]
  constructor
  · rintro ⟨h, hstart, hrest⟩
    obtain ⟨rfl, rfl⟩ := (reaches_textStart hi).mp hstart
    obtain ⟨k, hgroup, hend⟩ := reaches_seq.mpr hrest
    obtain ⟨rfl, rfl⟩ := (reaches_textEnd hgroup.1).mp hend
    exact ⟨rfl, rfl, reaches_group.mpr hgroup⟩
  · rintro ⟨rfl, rfl, h⟩
    refine ⟨0, (reaches_textStart hi).mpr ⟨rfl, rfl⟩, reaches_seq.mp ⟨_, reaches_group.mp h, ?_⟩⟩
    exact (reaches_textEnd (Nat.le_refl _)).mpr ⟨rfl, rfl⟩

/-- A text contains a match of an expression between its ends if the expression matches all of it. -/
theorem whole_isIn_iff {text : String} :
    e.whole.isIn text = true ↔ e.Matches [] text.toList text.toList.reverse [] := by
  have hplaces : e.Reaches text.toList 0 text.toList.length ↔
      e.Matches [] text.toList text.toList.reverse [] := by
    unfold Reaches Links place
    rw [List.take_length, List.drop_length, and_iff_right (Nat.le_refl _)]
    rfl
  rw [isIn_iff, ← hplaces]
  constructor
  · rintro ⟨i, j, hi, h⟩
    obtain ⟨rfl, rfl, h⟩ := (reaches_whole hi).mp h
    exact h
  · intro h
    exact ⟨0, _, Nat.zero_le _, (reaches_whole (Nat.zero_le _)).mpr ⟨rfl, rfl, h⟩⟩

end Ends

end Expr

end Pattern

end Conform
