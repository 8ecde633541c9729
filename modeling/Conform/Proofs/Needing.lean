import Conform.Pattern.Search
import Conform.Proofs.Printing

/-!
# Characters that a pattern needs

A pattern that names a character on every way through it is found in no text
without that character. The texts of numbers are made of few characters, so
such a pattern may keep numbers out.
-/

namespace Conform

namespace Pattern

/-- No place is marked. -/
def Marks.Blank (marks : Marks) : Prop := ∀ mark ∈ marks, mark = false

namespace Marks

variable {a b : Marks}

theorem blank_zipWith {α : Type} {f : Bool → α → Bool} {others : List α}
    (h : ∀ mark ∈ a, ∀ x ∈ others, f mark x = false) : Marks.Blank (List.zipWith f a others) := by
  induction a generalizing others with
  | nil => exact nofun
  | cons mark rest ih =>
    cases others with
    | nil => exact nofun
    | cons x others =>
      obtain ⟨hmark, hrest⟩ := List.forall_mem_cons.mp h
      refine List.forall_mem_cons.mpr ⟨hmark x List.mem_cons_self, ih fun m hm y hy => ?_⟩
      exact hrest m hm y (List.mem_cons_of_mem x hy)

theorem Blank.union (ha : Marks.Blank a) (hb : Marks.Blank b) : Marks.Blank (a.union b) := by
  unfold Marks.union
  induction a generalizing b with
  | nil => exact nofun
  | cons mark rest ih =>
    cases b with
    | nil => exact nofun
    | cons other more =>
      obtain ⟨rfl, hrest⟩ := List.forall_mem_cons.mp ha
      obtain ⟨rfl, hmore⟩ := List.forall_mem_cons.mp hb
      exact List.forall_mem_cons.mpr ⟨rfl, ih hrest hmore⟩

theorem Blank.isEmpty (h : Marks.Blank a) : a.isEmpty = true := by
  have hany : a.any id = false := List.any_eq_false.mpr fun mark hmark => by simp [h mark hmark]
  unfold Marks.isEmpty
  rw [hany]
  rfl

end Marks

namespace Expr

variable {step : Marks → Marks} {marks : Marks} {p : Places} {c : Char}

theorem closure_blank (hstep : ∀ marks, Marks.Blank marks → Marks.Blank (step marks))
    (h : Marks.Blank marks) (fuel : Nat) : Marks.Blank (closure step fuel marks) := by
  induction fuel generalizing marks with
  | zero => exact h
  | succ fuel ih =>
    unfold closure
    dsimp only
    split
    · exact h
    · exact ih (h.union (hstep marks h))

theorem repeated_blank (hstep : ∀ marks, Marks.Blank marks → Marks.Blank (step marks))
    (h : Marks.Blank marks) (count : Nat) : Marks.Blank (repeated step count marks) := by
  induction count generalizing marks with
  | zero => exact h
  | succ count ih =>
    unfold repeated
    dsimp only
    split
    · exact h
    · exact ih (hstep marks h)

/-- From no place nothing is reached. -/
theorem ends_blank (e : Expr) (h : Marks.Blank marks) : Marks.Blank (e.ends p marks) := by
  induction e generalizing marks with
  | empty => exact h
  | char set =>
    refine List.forall_mem_cons.mpr ⟨rfl, Marks.blank_zipWith fun mark hmark x _ => ?_⟩
    rw [h mark hmark, Bool.false_and]
  | look a =>
    refine Marks.blank_zipWith fun mark hmark x _ => ?_
    rw [h mark hmark]
    exact Bool.false_and _
  | seq a b iha ihb => exact ihb (iha h)
  | alt a b iha ihb => exact (iha h).union (ihb h)
  | rep e low high ih =>
    have hlow := repeated_blank (fun marks => ih) h low
    cases high with
    | none => exact closure_blank (fun marks => ih) hlow _
    | some high => exact closure_blank (fun marks => ih) hlow _
  | group e ih => exact ih h

/-- Whether every way through an expression takes a character. -/
def needs (c : Char) : Expr → Bool
  | char (.range low high) => low == c.toNat && high == c.toNat
  | seq a b => a.needs c || b.needs c
  | alt a b => a.needs c && b.needs c
  | rep e low _ => 0 < low && e.needs c
  | group e => e.needs c
  | _ => false

/-- Where the character is missing, nothing is reached from any place. -/
theorem ends_blank_of_needs (e : Expr) (hneeds : e.needs c = true) (hmissing : c ∉ p.chars)
    (marks : Marks) : Marks.Blank (e.ends p marks) := by
  induction e generalizing marks with
  | char set =>
    cases set with
    | range low high =>
      obtain ⟨hlow, hhigh⟩ := Bool.and_eq_true_iff.mp hneeds
      refine List.forall_mem_cons.mpr ⟨rfl, Marks.blank_zipWith fun mark _ x hx => ?_⟩
      have hother : x.toNat ≠ c.toNat := fun h => hmissing (Char.toNat_inj.mp h ▸ hx)
      rw [beq_iff_eq.mp hlow, beq_iff_eq.mp hhigh, CharSet.mem]
      simp only [Bool.and_eq_false_imp, decide_eq_true_eq, decide_eq_false_iff_not, not_le]
      omega
    | _ => cases hneeds
  | seq a b iha ihb =>
    rcases Bool.or_eq_true_iff.mp hneeds with ha | hb
    · exact ends_blank b (iha ha marks)
    · exact ihb hb _
  | alt a b iha ihb =>
    obtain ⟨ha, hb⟩ := Bool.and_eq_true_iff.mp hneeds
    exact (iha ha marks).union (ihb hb marks)
  | rep e low high ih =>
    obtain ⟨hlow, he⟩ := Bool.and_eq_true_iff.mp hneeds
    have hstep : ∀ marks, Marks.Blank marks → Marks.Blank (e.ends p marks) :=
      fun marks _ => ih he marks
    have hfirst : Marks.Blank (repeated (e.ends p) low marks) := by
      obtain ⟨count, rfl⟩ : ∃ count, low = count + 1 := ⟨low - 1, by simp at hlow; omega⟩
      unfold repeated
      dsimp only
      split
      · next heq => exact heq ▸ ih he marks
      · exact repeated_blank hstep (ih he marks) count
    cases high with
    | none => exact closure_blank hstep hfirst _
    | some high => exact closure_blank hstep hfirst _
  | group e ih => exact ih hneeds marks
  | _ => cases hneeds

/-- A text has the characters that a pattern found in it needs. -/
theorem mem_of_isIn {e : Expr} {text : String} (hneeds : e.needs c = true)
    (h : e.isIn text = true) : c ∈ text.toList := by
  by_contra hmissing
  have hblank := ends_blank_of_needs (p := Places.ofChars text.toList) e hneeds hmissing
    ((Places.ofChars text.toList).neighbours.map fun _ => true)
  unfold isIn at h
  dsimp only at h
  rw [hblank.isEmpty] at h
  cases h

end Expr

end Pattern

/-- The characters that the texts of numbers are made of. -/
def isNumeric (c : Char) : Bool := c.isDigit || c == '-' || c == '+' || c == '.' || c == 'e'

theorem isNumeric_of_isDigit {c : Char} (h : c.isDigit = true) : isNumeric c = true := by
  simp [isNumeric, h]

theorem isNumeric_toDigits {n : Nat} {c : Char} (h : c ∈ Nat.toDigits 10 n) :
    isNumeric c = true := isNumeric_of_isDigit (Json.isDigit_of_mem_toDigits h)

theorem isNumeric_intChars {i : Int} {c : Char} (h : c ∈ Json.intChars i) : isNumeric c = true := by
  unfold Json.intChars at h
  split at h
  · rcases List.mem_cons.mp h with rfl | h
    · rfl
    · exact isNumeric_toDigits h
  · exact isNumeric_toDigits h

theorem isNumeric_positional {d : Decimal} {c : Char}
    (h : c ∈ d.positional.1 ∨ c ∈ d.positional.2) : isNumeric c = true := by
  have hfilled : ∀ {count : Nat}, c ∈ List.replicate count '0' → isNumeric c = true := by
    intro count hc
    rw [List.eq_of_mem_replicate hc]
    rfl
  unfold Decimal.positional at h
  dsimp only at h
  split at h
  · rcases h with h | h
    · rcases List.mem_append.mp h with h | h
      · exact isNumeric_toDigits h
      · exact hfilled h
    · cases h
  · have hpadded := h.elim List.mem_of_mem_take List.mem_of_mem_drop
    rcases List.mem_append.mp hpadded with h | h
    · exact hfilled h
    · exact isNumeric_toDigits h

theorem isNumeric_text {x : Double} {c : Char} (h : c ∈ x.text.toList) : isNumeric c = true := by
  have hsign : ∀ {negative : Bool}, c ∈ (if negative then "-" else "").toList →
      isNumeric c = true := by
    intro negative hc
    cases negative with
    | true =>
      cases List.mem_singleton.mp hc
      rfl
    | false => cases hc
  have hmark : ∀ {below : Prop} [Decidable below], c ∈ (if below then "e-" else "e+").toList →
      isNumeric c = true := by
    intro below _ hc
    split at hc
    · simp only [String.reduceToList, List.mem_cons, List.not_mem_nil, or_false] at hc
      rcases hc with rfl | rfl <;> rfl
    · simp only [String.reduceToList, List.mem_cons, List.not_mem_nil, or_false] at hc
      rcases hc with rfl | rfl <;> rfl
  unfold Double.text at h
  dsimp only at h
  split at h
  · rw [String.toList_append, String.toList_ofList, List.mem_append, List.mem_append,
      List.mem_cons] at h
    rcases h with h | h | rfl | h
    · exact hsign h
    · exact isNumeric_positional (Or.inl h)
    · rfl
    · split at h
      · cases List.mem_singleton.mp h
        rfl
      · exact isNumeric_positional (Or.inr h)
  · rw [String.toList_append, String.toList_append, String.toList_append, String.toList_ofList,
      List.mem_append, List.mem_append, List.mem_append] at h
    rcases h with ((h | h) | h) | h
    · exact hsign h
    · split at h
      · cases h
      · next digit heq => exact isNumeric_toDigits (heq ▸ h)
      · next digit digits _ heq =>
        rcases List.mem_cons.mp h with rfl | h
        · exact isNumeric_toDigits (heq ▸ List.mem_cons_self)
        · rcases List.mem_cons.mp h with rfl | h
          · rfl
          · exact isNumeric_toDigits (heq ▸ List.mem_cons_of_mem _ h)
    · exact hmark h
    · change c ∈ (Nat.repr _).toList at h
      rw [Nat.repr, String.toList_ofList] at h
      exact isNumeric_toDigits h

theorem Number.isNumeric_text {n : Number} {c : Char} (h : c ∈ n.text.toList) :
    isNumeric c = true := by
  cases n with
  | int i =>
    rw [Number.text, Json.toString_toList] at h
    exact isNumeric_intChars h
  | float x => exact Conform.isNumeric_text h

end Conform
