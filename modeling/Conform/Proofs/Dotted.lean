import Conform.Report
import Mathlib.Data.List.TakeWhile

/-!
# Dotted paths

In the dotted form of a path a step ends where a dot or a bracket opens the
next one. As long as no key holds either, two paths of one form are the same,
so asking a report by the form of a path is asking it by the path.
-/

namespace Conform

/-- Characters of a kind, up to the end or to one that is not of it, are told from what follows. -/
theorem cut_unique {α : Type} {p : α → Bool} {as bs xs ys : List α} (has : ∀ a ∈ as, p a = true)
    (hbs : ∀ b ∈ bs, p b = true) (hxs : ∀ x ∈ xs.head?, p x = false)
    (hys : ∀ y ∈ ys.head?, p y = false) (h : as ++ xs = bs ++ ys) : as = bs ∧ xs = ys := by
  have htake {zs : List α} (hzs : ∀ z ∈ zs.head?, p z = false) : zs.takeWhile p = [] := by
    cases zs with
    | nil => rfl
    | cons z more => exact List.takeWhile_cons_of_neg (by simp [hzs z rfl])
  have hsame : as = bs := by
    have hwhile := congrArg (List.takeWhile p) h
    rwa [List.takeWhile_append_of_pos has, List.takeWhile_append_of_pos hbs, htake hxs, htake hys,
      List.append_nil, List.append_nil] at hwhile
  subst hsame
  exact ⟨rfl, List.append_cancel_left h⟩

/-- A number is told by its digits. -/
theorem eq_of_toDigits {m n : Nat} (h : Nat.toDigits 10 m = Nat.toDigits 10 n) : m = n :=
  calc
    m = Nat.ofDigitChars 10 (Nat.toDigits 10 m) 0 := Nat.ofDigitChars_ten_toDigits.symm
    _ = Nat.ofDigitChars 10 (Nat.toDigits 10 n) 0 := by rw [h]
    _ = n := Nat.ofDigitChars_ten_toDigits

namespace Segment

/-- A key that the dotted form shows as it is: not empty, without dots and opening brackets, and
not the word for the root. -/
def Ordinary : Segment → Prop
  | .index _ => True
  | .key name => name ≠ "" ∧ '.' ∉ name.toList ∧ '[' ∉ name.toList ∧ name ≠ "(root)"

instance : DecidablePred Ordinary
  | .index _ => inferInstanceAs (Decidable True)
  | .key _ => inferInstanceAs (Decidable (_ ∧ _))

/-- Whether a character opens no step. -/
def isBare (c : Char) : Bool := c != '.' && c != '['

theorem Ordinary.isBare {name : String} (h : (key name).Ordinary) :
    ∀ c ∈ name.toList, isBare c = true := by
  obtain ⟨-, hdot, hbracket, -⟩ := h
  intro c hc
  rw [Segment.isBare, Bool.and_eq_true, bne_iff_ne, bne_iff_ne]
  exact ⟨fun heq => hdot (heq ▸ hc), fun heq => hbracket (heq ▸ hc)⟩

end Segment

namespace FieldPath

open Segment (isBare)

/-- Every key of the path is ordinary. -/
def Ordinary (p : FieldPath) : Prop := ∀ s ∈ p.segments, s.Ordinary

instance : DecidablePred Ordinary :=
  fun p => inferInstanceAs (Decidable (∀ s ∈ p.segments, s.Ordinary))

/-- The characters of steps below the first. -/
def below (ss : List Segment) : List Char := ss.flatMap fun s => (segmentText s).toList

variable {ss ts : List Segment} {p q : FieldPath}

@[simp] theorem below_nil : below [] = [] := rfl

theorem below_index (position : Nat) (ss : List Segment) :
    below (.index position :: ss) = '[' :: (Nat.toDigits 10 position ++ ']' :: below ss) := by
  simp [below, segmentText]

theorem below_key (name : String) (ss : List Segment) :
    below (.key name :: ss) = '.' :: (name.toList ++ below ss) := by
  simp [below, segmentText]

theorem join_toList (ss : List Segment) : (String.join (ss.map segmentText)).toList = below ss := by
  rw [String.toList_join, List.flatMap_map, below]

theorem text_key (name : String) (ss : List Segment) :
    (FieldPath.mk (.key name :: ss)).text.toList = name.toList ++ below ss := by
  rw [text, String.toList_append, join_toList]

theorem text_index (position : Nat) (ss : List Segment) :
    (FieldPath.mk (.index position :: ss)).text.toList = below (.index position :: ss) :=
  join_toList _

/-- Behind a step the text ends or opens the next one. -/
theorem not_isBare_below (ss : List Segment) : ∀ c ∈ (below ss).head?, isBare c = false := by
  cases ss with
  | nil => exact nofun
  | cons s rest =>
    cases s with
    | index position =>
      rw [below_index]
      rintro c ⟨⟩
      rfl
    | key name =>
      rw [below_key]
      rintro c ⟨⟩
      rfl

/-- Steps below the first are told by their characters. -/
theorem eq_of_below (hss : ∀ s ∈ ss, s.Ordinary) (hts : ∀ t ∈ ts, t.Ordinary)
    (h : below ss = below ts) : ss = ts := by
  induction ss generalizing ts with
  | nil =>
    cases ts with
    | nil => rfl
    | cons t rest => cases t <;> simp [below_index, below_key] at h
  | cons s rest ih =>
    cases ts with
    | nil => cases s <;> simp [below_index, below_key] at h
    | cons t more =>
      obtain ⟨hs, hrest⟩ := List.forall_mem_cons.mp hss
      obtain ⟨ht, hmore⟩ := List.forall_mem_cons.mp hts
      cases s with
      | index m =>
        cases t with
        | key name => simp [below_index, below_key] at h
        | index n =>
          rw [below_index, below_index] at h
          -- a bracket closes the position, and no digit is one
          have hdigits (k : Nat) : ∀ c ∈ Nat.toDigits 10 k, Char.isDigit c = true := fun c hc =>
            Nat.isDigit_of_mem_toDigits (by decide) (by decide) hc
          have hcloses (cs : List Char) : ∀ c ∈ (']' :: cs).head?, Char.isDigit c = false := by
            rintro c ⟨⟩
            rfl
          obtain ⟨hsame, hbelow⟩ := cut_unique (hdigits m) (hdigits n) (hcloses _) (hcloses _)
            (List.cons.inj h).2
          rw [eq_of_toDigits hsame, ih hrest hmore (List.cons.inj hbelow).2]
      | key name =>
        cases t with
        | index n => simp [below_index, below_key] at h
        | key other =>
          rw [below_key, below_key] at h
          obtain ⟨hsame, hbelow⟩ := cut_unique hs.isBare ht.isBare (not_isBare_below _)
            (not_isBare_below _) (List.cons.inj h).2
          rw [String.toList_injective hsame, ih hrest hmore hbelow]

/-- A path that begins with a position begins with a bracket, as no ordinary key does. -/
theorem text_key_ne_index {name : String} (h : (Segment.key name).Ordinary) (position : Nat) :
    (FieldPath.mk (.key name :: ss)).text ≠ (FieldPath.mk (.index position :: ts)).text := by
  intro heq
  have hchars := congrArg String.toList heq
  rw [text_key, text_index, below_index] at hchars
  cases hname : name.toList with
  | nil => exact h.1 (String.toList_eq_nil_iff.mp hname)
  | cons c cs =>
    rw [hname] at hchars
    have hc := h.isBare c (hname ▸ List.mem_cons_self)
    cases (List.cons.inj hchars).1
    cases hc

/-- Nothing but the root is written with the word for it. -/
theorem text_ne_root {s : Segment} (h : s.Ordinary) :
    (FieldPath.mk (s :: ss)).text ≠ root.text := by
  intro heq
  have hchars := congrArg String.toList heq
  cases s with
  | index position =>
    rw [text_index, below_index] at hchars
    cases hchars
  | key name =>
    have hroot : root.text.toList = "(root)".toList ++ [] := rfl
    have hbare : ∀ c ∈ "(root)".toList, isBare c = true := List.all_eq_true.mp rfl
    rw [text_key, hroot] at hchars
    obtain ⟨hsame, -⟩ := cut_unique h.isBare hbare (not_isBare_below ss) (not_isBare_below []) hchars
    exact h.2.2.2 (String.toList_injective hsame)

/-- Ordinary paths are told by their dotted forms. -/
theorem eq_of_text (hp : p.Ordinary) (hq : q.Ordinary) (h : p.text = q.text) : p = q := by
  obtain ⟨ss⟩ := p
  obtain ⟨ts⟩ := q
  cases ss with
  | nil =>
    cases ts with
    | nil => rfl
    | cons t more => exact absurd h.symm (text_ne_root (hq t List.mem_cons_self))
  | cons s rest =>
    cases ts with
    | nil => exact absurd h (text_ne_root (hp s List.mem_cons_self))
    | cons t more =>
      have hs := hp s List.mem_cons_self
      have ht := hq t List.mem_cons_self
      -- with a dot before a first key both texts are made of steps below the first
      refine congrArg FieldPath.mk (eq_of_below hp hq ?_)
      have hchars := congrArg String.toList h
      cases s with
      | index position =>
        cases t with
        | index other => rwa [text_index, text_index] at hchars
        | key name => exact absurd h.symm (text_key_ne_index ht position)
      | key name =>
        cases t with
        | index position => exact absurd h (text_key_ne_index hs position)
        | key other =>
          rw [text_key, text_key] at hchars
          rw [below_key, below_key, hchars]

end FieldPath

namespace Report

variable {r : Report} {p : FieldPath}

/--
A report whose paths are ordinary has an issue with a code at the dotted form of an ordinary path
just where it has one with that path and that code: the form of an ordinary path belongs to no other.
-/
theorem has_text_iff (hr : ∀ i ∈ r.issues, i.path.Ordinary) (hp : p.Ordinary) (code : Reason) :
    (r.has p.text code = true ↔ ∃ i ∈ r.issues, i.path = p ∧ i.code = code) ∧
      ∀ q : FieldPath, q.Ordinary → (q.text = p.text ↔ q = p) := by
  have hform (q : FieldPath) (hq : q.Ordinary) : q.text = p.text ↔ q = p :=
    ⟨FieldPath.eq_of_text hq hp, congrArg FieldPath.text⟩
  refine ⟨?_, hform⟩
  unfold has
  rw [List.any_eq_true]
  refine exists_congr fun i => and_congr_right fun hi => ?_
  rw [Bool.and_eq_true, beq_iff_eq, beq_iff_eq, hform i.path (hr i hi)]
  exact and_comm

/-- A number too large in the second item, and nothing at all for the first. -/
def nestedReport : Report where
  channel := .query
  target := "Query7"
  issues :=
    [⟨⟨[.key "arr", .index 1, .key "nbr"]⟩, .tooBig, "number <= 23", "24",
        "must be less than or equal to 23"⟩,
      ⟨⟨[.key "arr", .index 0]⟩, .required, "Item", "undefined",
        "expected Item, received undefined"⟩]

/-- The form of a nested path finds its issue, with its code and no other. -/
theorem nested_issue_found : let p : FieldPath := ⟨[.key "arr", .index 1, .key "nbr"]⟩
    (∀ i ∈ nestedReport.issues, i.path.Ordinary) ∧ p.Ordinary ∧ p.text = "arr[1].nbr" ∧
      nestedReport.has "arr[1].nbr" .tooBig = true ∧
      nestedReport.has "arr[1].nbr" .required = false := by
  intro p
  have hordinary : ∀ i ∈ nestedReport.issues, i.path.Ordinary := by decide
  have hp : p.Ordinary := by decide
  have htext : p.text = "arr[1].nbr" := by decide
  refine ⟨hordinary, hp, htext, ?_, ?_⟩
  · rw [← htext, (has_text_iff hordinary hp .tooBig).1]
    decide
  · rw [← htext, Bool.eq_false_iff, ne_eq, (has_text_iff hordinary hp .required).1]
    decide

/-- A key that holds an opening bracket is not ordinary, and its form belongs to another path as well. -/
example : (FieldPath.mk [.key "arr[1]"]).text = (FieldPath.mk [.key "arr", .index 1]).text := by decide

end Report

end Conform
