import Conform.Proofs.Conformance
import Conform.Proofs.Rounding
import Mathlib.Order.Monotone.Basic

/-!
# Bounds on numbers

Doubles are compared by their bits, in the order of the numbers they represent.
A bound is therefore exact for every number that is a double. An integer of
more than 53 bits is compared by its nearest double: none within the bounds is
refused, and one beyond a bound passes only by being rounded onto it.
-/

namespace Conform

namespace Double

section Order

variable {x y : Double} {i : ℤ}

/-- The magnitude that bits stand for, in units of the least positive double. -/
def units (bits : Nat) : Nat :=
  (if bits < 2 ^ 52 then bits else 2 ^ 52 + bits % 2 ^ 52) * 2 ^ (max 1 (bits / 2 ^ 52) - 1)

/-- The next bits stand for more, on the same grid or at the start of the next binade. -/
theorem units_lt_succ (bits : Nat) : units bits < units (bits + 1) := by
  rcases Nat.lt_or_ge (bits + 1) (2 ^ 52) with hsubnormal | hnormal
  · have hleft : units bits = bits := by
      have hgrid : max 1 (bits / 2 ^ 52) - 1 = 0 := by omega
      rw [units, if_pos (by omega), hgrid, Nat.pow_zero, Nat.mul_one]
    have hright : units (bits + 1) = bits + 1 := by
      have hgrid : max 1 ((bits + 1) / 2 ^ 52) - 1 = 0 := by omega
      rw [units, if_pos hsubnormal, hgrid, Nat.pow_zero, Nat.mul_one]
    omega
  · rw [units, units, if_neg (Nat.not_lt.mpr hnormal)]
    rcases Nat.lt_or_ge (bits % 2 ^ 52 + 1) (2 ^ 52) with hsame | hcarry
    · have hgrid : max 1 ((bits + 1) / 2 ^ 52) - 1 = max 1 (bits / 2 ^ 52) - 1 := by omega
      rw [hgrid, if_neg (by omega)]
      exact Nat.mul_lt_mul_of_pos_right (by omega) (Nat.two_pow_pos _)
    · split
      · have hleft : max 1 (bits / 2 ^ 52) - 1 = 0 := by omega
        have hright : max 1 ((bits + 1) / 2 ^ 52) - 1 = 0 := by omega
        rw [hleft, hright]
        omega
      · have hgrid : max 1 ((bits + 1) / 2 ^ 52) - 1 = max 1 (bits / 2 ^ 52) - 1 + 1 := by omega
        rw [hgrid]
        generalize max 1 (bits / 2 ^ 52) - 1 = grid
        have hdouble : 2 ^ (grid + 1) = 2 * 2 ^ grid := by rw [Nat.pow_succ, Nat.mul_comm]
        rw [hdouble, ← Nat.mul_assoc]
        exact Nat.mul_lt_mul_of_pos_right (by omega) (Nat.two_pow_pos grid)

theorem units_strictMono : StrictMono units := strictMono_nat_of_lt_succ units_lt_succ

theorem magnitude_eq (x : Double) : x.magnitude = units x.bits / 2 ^ 1074 := by
  have hunits : units x.bits = x.significand * 2 ^ (max 1 (x.bits / 2 ^ 52) - 1) := rfl
  have hexponent : x.exponent = (max 1 (x.bits / 2 ^ 52) : Nat) - 1075 := rfl
  have hpow : (2 : ℚ) ^ 1074 ≠ 0 := pow_ne_zero _ (by decide)
  unfold magnitude ratio
  rw [hunits]
  split
  · have hsplit : max 1 (x.bits / 2 ^ 52) - 1 = x.exponent.toNat + 1074 := by omega
    rw [hsplit, pow_add, twoTo_eq, ← mul_assoc, Nat.cast_mul _ (2 ^ 1074), Nat.cast_pow 2 1074,
      Nat.cast_two, mul_div_cancel_right₀ _ hpow, Nat.cast_one, div_one]
  · have hsplit : 1074 = max 1 (x.bits / 2 ^ 52) - 1 + (-x.exponent).toNat := by omega
    rw [hsplit, pow_add, twoTo_eq]
    push_cast
    rw [mul_comm ((2 : ℚ) ^ _) (2 ^ (-x.exponent).toNat)]
    rw [mul_div_mul_right _ _ (pow_ne_zero _ (by decide))]

theorem magnitude_lt_iff : x.magnitude < y.magnitude ↔ x.bits < y.bits := by
  rw [magnitude_eq, magnitude_eq, div_lt_div_iff_of_pos_right (pow_pos (by decide) _),
    Nat.cast_lt, units_strictMono.lt_iff_lt]

theorem magnitude_pos_iff : 0 < x.magnitude ↔ 0 < x.bits := by
  have hzero : zero.magnitude = 0 := by
    have hunits : units zero.bits = 0 := by decide
    rw [magnitude_eq, hunits, Nat.cast_zero, zero_div]
  exact hzero ▸ magnitude_lt_iff (x := zero) (y := x)

/-- The order of the bits with the sign is that of the numbers. -/
theorem lt_iff_value : x.lt y = true ↔ x.value < y.value := by
  have hx := x.magnitude_nonneg
  have hy := y.magnitude_nonneg
  have hxpos := magnitude_pos_iff (x := x)
  have hypos := magnitude_pos_iff (x := y)
  rw [lt_iff]
  unfold rank value
  cases x.negative <;> cases y.negative <;> simp only [Bool.false_eq_true, if_true, if_false]
  · rw [magnitude_lt_iff]
    omega
  · constructor
    · omega
    · intro h
      linarith
  · constructor
    · intro h
      by_contra hle
      have hx0 : ¬ 0 < x.magnitude := by linarith
      have hy0 : ¬ 0 < y.magnitude := by linarith
      rw [hxpos] at hx0
      rw [hypos] at hy0
      omega
    · intro h
      have hsum : 0 < x.magnitude ∨ 0 < y.magnitude := by
        by_contra hnone
        rw [not_or] at hnone
        linarith
      rw [hxpos, hypos] at hsum
      omega
  · rw [neg_lt_neg_iff, neg_lt_neg_iff, magnitude_lt_iff, Nat.cast_lt]

theorem not_lt_iff_value : x.lt y = false ↔ y.value ≤ x.value := by
  rw [← Bool.not_eq_true, lt_iff_value, not_lt]

/-- A double is whole exactly if it represents an integer. -/
theorem isWhole_iff : x.isWhole = true ↔ ∃ k : ℤ, x.value = k := by
  have hden : (x.ratio.2 : ℚ) ≠ 0 := Nat.cast_ne_zero.mpr (denominator_pos x).ne'
  have hmagnitude : (x.value = x.magnitude) ∨ (x.value = -x.magnitude) := by
    unfold value
    split
    · exact Or.inr rfl
    · exact Or.inl rfl
  have hwhole : x.isWhole = true ↔ x.ratio.2 ∣ x.ratio.1 := by
    rw [isWhole, beq_iff_eq, Nat.dvd_iff_mod_eq_zero]
  rw [hwhole]
  constructor
  · rintro ⟨k, hk⟩
    have hvalue : x.magnitude = k := by
      rw [magnitude, hk, Nat.cast_mul, mul_div_cancel_left₀ _ hden]
    rcases hmagnitude with h | h
    · exact ⟨k, by rw [h, hvalue, Int.cast_natCast]⟩
    · exact ⟨-k, by rw [h, hvalue, Int.cast_neg, Int.cast_natCast]⟩
  · rintro ⟨k, hk⟩
    have hvalue : x.magnitude = k.natAbs := by
      have habs : |x.value| = x.magnitude := by
        rcases hmagnitude with h | h
        · rw [h, abs_of_nonneg x.magnitude_nonneg]
        · rw [h, abs_neg, abs_of_nonneg x.magnitude_nonneg]
      rw [← habs, hk, Nat.cast_natAbs, Int.cast_abs]
    refine ⟨k.natAbs, ?_⟩
    have hproduct : (x.ratio.1 : ℚ) = x.ratio.2 * k.natAbs := by
      rw [← hvalue, magnitude, mul_div_cancel₀ _ hden]
    exact_mod_cast hproduct

/-- The nearest double is not below a double unless the integer is. -/
theorem NearestTo.le_iff (h : x.NearestTo i) :
    y.value ≤ x.value ↔ y.value ≤ i ∨ x.value = y.value := by
  have hnear := h.near y
  constructor
  · intro hle
    rcases le_or_gt y.value (i : ℚ) with hbelow | habove
    · exact Or.inl hbelow
    · rw [abs_of_pos (by linarith), abs_of_pos (by linarith)] at hnear
      exact Or.inr (by linarith)
  · rintro (hbelow | heq)
    · by_contra hlt
      rw [abs_of_neg (by linarith), abs_of_nonpos (by linarith)] at hnear
      linarith
    · exact heq.ge

/-- Nor is it above a double unless the integer is. -/
theorem NearestTo.ge_iff (h : x.NearestTo i) :
    x.value ≤ y.value ↔ i ≤ y.value ∨ x.value = y.value := by
  have hnear := h.near y
  constructor
  · intro hle
    rcases le_or_gt (i : ℚ) y.value with habove | hbelow
    · exact Or.inl habove
    · rw [abs_of_neg (by linarith), abs_of_neg (by linarith)] at hnear
      exact Or.inr (by linarith)
  · rintro (habove | heq)
    · by_contra hlt
      rw [abs_of_pos (by linarith), abs_of_nonneg (by linarith)] at hnear
      linarith
    · exact heq.le

/-- An integer that is a double is its own nearest double. -/
theorem NearestTo.value_eq (h : x.NearestTo i) (hy : y.value = i) : x.value = i := by
  have hnear := h.near y
  rw [hy, sub_self, abs_zero] at hnear
  exact sub_eq_zero.mp (abs_nonpos_iff.mp hnear)

end Order

end Double

namespace Number

variable {n : Number}

/-- The number that is meant. -/
def value : Number → ℚ
  | int i => i
  | float x => x.value

/-- An integer among numbers is in range; a float always is one. -/
def Proper (n : Number) : Prop := ∀ i, n = .int i → InRange i

/-- Whether some double is the number. -/
def IsDouble (n : Number) : Prop := ∃ x : Double, x.value = n.value

theorem isWhole_toDouble_iff (h : n.Proper) :
    n.toDouble.isWhole = true ↔ ∃ k : ℤ, n.value = k := by
  cases n with
  | int i => exact iff_of_true (Double.isWhole_of_inRange (h i rfl)) ⟨i, rfl⟩
  | float x => exact Double.isWhole_iff

theorem le_toDouble_iff (h : n.Proper) (a : Double) :
    a.value ≤ n.toDouble.value ↔ a.value ≤ n.value ∨ n.toDouble.value = a.value := by
  cases n with
  | int i => exact (Double.nearestTo_ofInt (h i rfl)).le_iff
  | float x => exact ⟨Or.inl, fun hle => hle.elim id Eq.ge⟩

theorem toDouble_le_iff (h : n.Proper) (b : Double) :
    n.toDouble.value ≤ b.value ↔ n.value ≤ b.value ∨ n.toDouble.value = b.value := by
  cases n with
  | int i => exact (Double.nearestTo_ofInt (h i rfl)).ge_iff
  | float x => exact ⟨Or.inl, fun hle => hle.elim id Eq.le⟩

theorem IsDouble.value_toDouble (hdouble : n.IsDouble) (h : n.Proper) :
    n.toDouble.value = n.value := by
  cases n with
  | int i =>
    obtain ⟨y, hy⟩ := hdouble
    exact (Double.nearestTo_ofInt (h i rfl)).value_eq hy
  | float x => rfl

end Number

namespace NumberRule

variable {r : NumberRule} {path : FieldPath} {n : Number}

/-- The number is of the kind and between the bounds, both included. -/
structure Admits (r : NumberRule) (n : Number) : Prop where
  whole : r.integer = true → ∃ k : ℤ, n.value = k
  low : ∀ a ∈ r.minimum, a.value ≤ n.value
  high : ∀ b ∈ r.maximum, n.value ≤ b.value

/-- So it is, or it lies beyond a bound that is its nearest double. -/
structure NearlyAdmits (r : NumberRule) (n : Number) : Prop where
  whole : r.integer = true → ∃ k : ℤ, n.value = k
  low : ∀ a ∈ r.minimum, a.value ≤ n.value ∨ n.toDouble.value = a.value
  high : ∀ b ∈ r.maximum, n.value ≤ b.value ∨ n.toDouble.value = b.value

theorem Admits.nearly (h : r.Admits n) : r.NearlyAdmits n :=
  ⟨h.whole, fun a ha => Or.inl (h.low a ha), fun b hb => Or.inl (h.high b hb)⟩

/-- For a number that is a double there is no difference. -/
theorem nearlyAdmits_iff (hdouble : n.IsDouble) (hn : n.Proper) :
    r.NearlyAdmits n ↔ r.Admits n := by
  have hvalue := hdouble.value_toDouble hn
  refine ⟨fun h => ⟨h.whole, fun a ha => ?_, fun b hb => ?_⟩, Admits.nearly⟩
  · exact (h.low a ha).elim id fun heq => (hvalue.symm.trans heq).ge
  · exact (h.high b hb).elim id fun heq => (hvalue.symm.trans heq).le

theorem meets_iff (hn : n.Proper) : r.Meets n ↔ r.NearlyAdmits n := by
  constructor
  · intro h
    refine ⟨fun hinteger => (n.isWhole_toDouble_iff hn).mp (h.whole hinteger), fun a ha => ?_,
      fun b hb => ?_⟩
    · exact (n.le_toDouble_iff hn a).mp (Double.not_lt_iff_value.mp (h.low a ha))
    · exact (n.toDouble_le_iff hn b).mp (Double.not_lt_iff_value.mp (h.high b hb))
  · intro h
    refine ⟨fun hinteger => (n.isWhole_toDouble_iff hn).mpr (h.whole hinteger), fun a ha => ?_,
      fun b hb => ?_⟩
    · exact Double.not_lt_iff_value.mpr ((n.le_toDouble_iff hn a).mpr (h.low a ha))
    · exact Double.not_lt_iff_value.mpr ((n.toDouble_le_iff hn b).mpr (h.high b hb))

/-- A number that meets the rule is kept as it is, and no other is accepted. -/
theorem check_num_kept (h : r.Meets n) : r.check path (.num n) = Outcome.kept (.num n) := by
  have hbroken : r.broken path (.num n) n.toDouble = [] :=
    r.broken_eq_nil_iff.mpr ⟨h.low, h.high⟩
  unfold check
  rw [Coerce.number_num_iff.mpr h.whole]
  dsimp only
  rw [hbroken]
  rfl

theorem check_num_accepted_iff : (r.check path (.num n)).accepted = true ↔ r.Meets n := by
  constructor
  · intro h
    unfold check at h
    cases hcoerced : Coerce.number r.integer (.num n) with
    | error reason =>
      rw [hcoerced] at h
      cases h
    | ok m =>
      rw [hcoerced] at h
      have hsame := Coerce.eq_of_whole hcoerced
      subst hsame
      obtain ⟨hlow, hhigh⟩ := r.broken_eq_nil_iff.mp (List.isEmpty_iff.mp h)
      exact ⟨Coerce.number_num_iff.mp hcoerced, hlow, hhigh⟩
  · intro h
    rw [check_num_kept h]
    rfl

/--
A rule for numbers compares a number by its nearest double. It keeps every number between its
bounds, the bounds included, and accepts no other but an integer that lies beyond a bound and is
rounded onto it; of the numbers that are doubles it accepts exactly those between its bounds.
-/
theorem bounds_inclusive (r : NumberRule) (path : FieldPath) (n : Number) (hn : n.Proper) :
    ((r.check path (.num n)).accepted = true ↔ r.NearlyAdmits n) ∧
    (r.Admits n → r.check path (.num n) = Outcome.kept (.num n)) ∧
    (n.IsDouble → ((r.check path (.num n)).accepted = true ↔ r.Admits n)) ∧
    ∀ i, n = .int i → n.toDouble.NearestTo i ∧
      (i.natAbs < 2 ^ 53 → n.toDouble.value = n.value) := by
  have haccepted : (r.check path (.num n)).accepted = true ↔ r.NearlyAdmits n :=
    check_num_accepted_iff.trans (meets_iff hn)
  refine ⟨haccepted, fun h => check_num_kept ((meets_iff hn).mpr h.nearly), fun hdouble => ?_, ?_⟩
  · exact haccepted.trans (nearlyAdmits_iff hdouble hn)
  · rintro i rfl
    exact ⟨Double.nearestTo_ofInt (hn i rfl), Double.value_ofInt_small⟩

section Example

/-- Integers up to the first power of two beyond 53 bits. -/
def upToLimit : NumberRule := ⟨true, none, some (Double.ofInt 9007199254740992)⟩

theorem value_limit : (Double.ofInt 9007199254740992).value = 9007199254740992 := by
  have hratio : (Double.ofInt 9007199254740992).ratio = (9007199254740992, 1) := by decide +kernel
  unfold Double.value Double.magnitude
  rw [hratio, Double.negative_ofInt]
  norm_num

theorem upToLimit_accepts :
    (upToLimit.check .root (.num (.int 9007199254740993))).accepted = true := by
  decide +kernel

/-- The next integer has no double of its own and is accepted though it is beyond the bound. -/
theorem beyond_limit_accepted : ∃ n : Number, n.Proper ∧
    (upToLimit.check .root (.num n)).accepted = true ∧ ¬ upToLimit.Admits n := by
  refine ⟨.int 9007199254740993, ?_, upToLimit_accepts, fun h => ?_⟩
  · rintro i ⟨⟩
    decide
  · have hhigh := h.high _ rfl
    rw [value_limit] at hhigh
    norm_num [Number.value] at hhigh

/-- It is rounded onto the bound. -/
theorem limit_nearly_admits : Number.Proper (.int 9007199254740993) ∧
    upToLimit.NearlyAdmits (.int 9007199254740993) := by
  have hproper : Number.Proper (.int 9007199254740993) := by
    rintro i ⟨⟩
    decide
  exact ⟨hproper, (bounds_inclusive upToLimit .root _ hproper).1.mp upToLimit_accepts⟩

end Example

end NumberRule

end Conform
