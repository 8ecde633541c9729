import Conform.Proofs.Coercion
import Conform.Proofs.Printing
import Mathlib.Algebra.Order.Field.Rat
import Mathlib.Tactic.Linarith
import Mathlib.Tactic.Positivity
import Mathlib.Tactic.Ring

/-!
# Integers as doubles

The double made of an integer is the nearest to it, and of two as near the one
with the even significand. Up to 53 bits it is the integer itself. A text of
digits is read as that double, so it stands for its integer where it has no more
bits, and for a float beyond.
-/

namespace Conform

namespace Double

/-- The magnitude that a double represents. -/
def magnitude (x : Double) : ℚ := x.ratio.1 / x.ratio.2

/-- The number that a double represents. -/
def value (x : Double) : ℚ := if x.negative then -x.magnitude else x.magnitude

/-- No double is nearer to an integer, and if another is as near, the significand is even. -/
structure NearestTo (x : Double) (i : ℤ) : Prop where
  near : ∀ y : Double, |x.value - i| ≤ |y.value - i|
  even : ∀ y : Double, |y.value - i| = |x.value - i| → y.value = x.value ∨ x.significand % 2 = 0

section Quotients

variable {n d : Nat}

/-- A quotient is rounded down or up, and to an even number from the middle. -/
theorem roundQuotient_cases (n d : Nat) :
    (roundQuotient n d = n / d ∧ 2 * (n % d) ≤ d ∧ (2 * (n % d) = d → n / d % 2 = 0)) ∨
      (roundQuotient n d = n / d + 1 ∧ d ≤ 2 * (n % d) ∧ (2 * (n % d) = d → n / d % 2 = 1)) := by
  unfold roundQuotient
  dsimp only
  split_ifs
  · exact .inl ⟨rfl, by omega, by omega⟩
  · exact .inr ⟨rfl, by omega, by omega⟩
  · rcases Nat.mod_two_eq_zero_or_one (n / d) with heven | hodd
    · rw [heven]
      exact .inl ⟨rfl, by omega, fun _ => rfl⟩
    · rw [hodd]
      exact .inr ⟨rfl, by omega, fun _ => rfl⟩

/-- A multiple is none or one of a number, or far from both. -/
theorem multiple_cases (hd : 0 < d) (j : ℤ) : j ≤ -1 ∧ j * d ≤ -d ∨ j = 0 ∧ j * d = 0 ∨
    j = 1 ∧ j * d = d ∨ 2 ≤ j ∧ 2 * d ≤ j * d := by
  have hpos : (0 : ℤ) < d := by exact_mod_cast hd
  rcases lt_or_ge j 0 with hneg | hnonneg
  · exact .inl ⟨by omega, by nlinarith⟩
  · rcases lt_or_ge j 2 with hsmall | hlarge
    · obtain rfl | rfl : j = 0 ∨ j = 1 := by omega
      · simp
      · simp
    · exact .inr (.inr (.inr ⟨hlarge, by nlinarith⟩))

/-- No multiple is nearer than that of the rounded quotient, and only an even one has a rival. -/
theorem roundQuotient_near (hd : 0 < d) (k : ℤ) :
    |(roundQuotient n d * d : ℤ) - n| ≤ |k * d - n| ∧
      (|k * d - n| = |(roundQuotient n d * d : ℤ) - n| →
        k = roundQuotient n d ∨ roundQuotient n d % 2 = 0) := by
  have hsplit : ((n / d : Nat) * d : ℤ) + (n % d : Nat) = n := by
    exact_mod_cast Nat.div_add_mod' n d
  have hrest : n % d < d := Nat.mod_lt n hd
  -- All multiples are measured from that of the quotient, which is the one below.
  have hmultiple (j : ℤ) : j * d = (n / d : Nat) * d + (j - (n / d : Nat)) * d := by ring
  have hother := multiple_cases hd (k - (n / d : Nat))
  have hrounded := multiple_cases hd ((roundQuotient n d : ℤ) - (n / d : Nat))
  simp only [Int.abs_eq_natAbs]
  rw [hmultiple k, hmultiple (roundQuotient n d)]
  generalize ((n / d : Nat) * d : ℤ) = x at *
  generalize (k - (n / d : Nat)) * (d : ℤ) = y at *
  generalize ((roundQuotient n d : ℤ) - (n / d : Nat)) * (d : ℤ) = z at *
  rcases roundQuotient_cases n d with ⟨hround, hbelow, heven⟩ | ⟨hround, habove, hodd⟩
  · obtain rfl : z = 0 := by omega
    omega
  · obtain rfl : z = d := by omega
    omega

end Quotients

section Large

variable {x : Double} {n e m : Nat} {i : ℤ}

/-- What a double with these bits stands for, whose significand may be the first of the next binade. -/
theorem ratio_of_scaled (hbits : x.bits = (1074 + e) * 2 ^ 52 + m) (hlow : 2 ^ 52 ≤ m)
    (hhigh : m ≤ 2 ^ 53) : x.ratio = (m * 2 ^ e, 1) ∧ (m % 2 = 0 → x.significand % 2 = 0) := by
  have hnormal : ¬ x.bits < twoTo 52 := by
    rw [twoTo_eq]
    omega
  have hsignificand : x.significand = 2 ^ 52 + x.bits % 2 ^ 52 := if_neg hnormal
  have hexponent : x.exponent = (max 1 (x.bits / 2 ^ 52) : Nat) - 1075 := rfl
  have hnonneg : 0 ≤ x.exponent := by omega
  have hratio : x.ratio = (x.significand * 2 ^ x.exponent.toNat, 1) := if_pos hnonneg
  rcases hhigh.lt_or_eq with hlt | rfl
  · have hmantissa : x.significand = m := by omega
    have hscale : x.exponent.toNat = e := by omega
    rw [hratio, hmantissa, hscale]
    exact ⟨rfl, id⟩
  · have hmantissa : x.significand = 2 ^ 52 := by omega
    have hscale : x.exponent.toNat = e + 1 := by omega
    rw [hratio, hmantissa, hscale]
    exact ⟨by ring_nf, fun _ => rfl⟩

theorem ne_zero_of_log2 (hlog : Nat.log2 n = 52 + e) : n ≠ 0 := by
  rintro rfl
  rw [Nat.log2_zero] at hlog
  omega

/-- The bits of a large integer: its binade, and the integer rounded on the grid there. -/
theorem nearestBits_large (hlog : Nat.log2 n = 52 + e) :
    nearestBits n 1 = (1074 + e) * 2 ^ 52 + roundQuotient n (2 ^ e) ∧
      2 ^ 52 ≤ roundQuotient n (2 ^ e) ∧ roundQuotient n (2 ^ e) ≤ 2 ^ 53 := by
  have hn := ne_zero_of_log2 hlog
  have hlow : 2 ^ 52 ≤ n / 2 ^ e := by
    rw [Nat.le_div_iff_mul_le (Nat.two_pow_pos e), ← Nat.pow_add, ← hlog]
    exact Nat.log2_self_le hn
  have hhigh : n / 2 ^ e < 2 ^ 53 := by
    rw [Nat.div_lt_iff_lt_mul (Nat.two_pow_pos e), ← Nat.pow_add, Nat.add_right_comm 52 1 e, ← hlog]
    exact Nat.lt_log2_self
  obtain ⟨hbelow, habove⟩ : n / 2 ^ e ≤ roundQuotient n (2 ^ e) ∧
      roundQuotient n (2 ^ e) ≤ n / 2 ^ e + 1 := by
    rcases roundQuotient_cases n (2 ^ e) with ⟨hround, -⟩ | ⟨hround, -⟩ <;> omega
  refine ⟨?_, by omega, by omega⟩
  unfold nearestBits
  rw [if_neg hn, quotientLog_one hn, hlog]
  have hgrid : max (((52 + e : Nat) : ℤ) - 52) (-1074) = e := by omega
  have hshift : ((e : ℤ) + 1074).toNat = 1074 + e := by omega
  simp only [hgrid, hshift, Int.toNat_natCast, if_pos (Int.natCast_nonneg e), Nat.one_mul, twoTo_eq]

theorem significand_lt (x : Double) : x.significand < 2 ^ 53 := by
  unfold significand
  rw [twoTo_eq]
  split <;> omega

/-- A double is on the grid of a binade, or its magnitude is below the binade. -/
theorem magnitude_cases (y : Double) (he : 0 < e) :
    (∃ k : Nat, y.magnitude = k * 2 ^ e) ∨ y.magnitude < 2 ^ (52 + e) := by
  have hsignificand : (y.significand : ℚ) < 2 ^ 53 := by exact_mod_cast y.significand_lt
  unfold magnitude ratio
  split
  · rw [Nat.cast_one, div_one, twoTo_eq]
    rcases Nat.lt_or_ge y.exponent.toNat e with hlt | hge
    · right
      have hstep : 53 + y.exponent.toNat ≤ 52 + e := by omega
      calc ((y.significand * 2 ^ y.exponent.toNat : Nat) : ℚ)
          = y.significand * 2 ^ y.exponent.toNat := by push_cast; rfl
        _ < 2 ^ 53 * 2 ^ y.exponent.toNat := mul_lt_mul_of_pos_right hsignificand (by positivity)
        _ = 2 ^ (53 + y.exponent.toNat) := (pow_add 2 53 _).symm
        _ ≤ 2 ^ (52 + e) := pow_le_pow_right₀ (by norm_num) hstep
    · left
      refine ⟨y.significand * 2 ^ (y.exponent.toNat - e), ?_⟩
      have hsplit : y.exponent.toNat = (y.exponent.toNat - e) + e := by omega
      rw [hsplit, pow_add]
      push_cast
      rw [Nat.add_sub_cancel, mul_assoc]
  · right
    have hone : (1 : ℚ) ≤ (twoTo (-y.exponent).toNat : Nat) := by
      exact_mod_cast Nat.one_le_two_pow
    calc (y.significand : ℚ) / (twoTo (-y.exponent).toNat : Nat)
        ≤ y.significand := div_le_self (Nat.cast_nonneg _) hone
      _ < 2 ^ 53 := hsignificand
      _ ≤ 2 ^ (52 + e) := pow_le_pow_right₀ (by norm_num) (by omega)

/-- Nothing on the grid of an integer's binade, or below the binade, is nearer than its rounding. -/
theorem rounded_near (hlog : Nat.log2 n = 52 + e) {q : ℚ}
    (hq : (∃ k : Nat, q = k * 2 ^ e) ∨ q < 2 ^ (52 + e)) :
    |(roundQuotient n (2 ^ e) * 2 ^ e : ℚ) - n| ≤ |q - n| ∧
      (|q - n| = |(roundQuotient n (2 ^ e) * 2 ^ e : ℚ) - n| →
        q = roundQuotient n (2 ^ e) * 2 ^ e ∨ roundQuotient n (2 ^ e) % 2 = 0) := by
  have hgrid (k : Nat) :
      |(roundQuotient n (2 ^ e) * 2 ^ e : ℚ) - n| ≤ |(k * 2 ^ e : ℚ) - n| ∧
        (|(k * 2 ^ e : ℚ) - n| = |(roundQuotient n (2 ^ e) * 2 ^ e : ℚ) - n| →
          k = roundQuotient n (2 ^ e) ∨ roundQuotient n (2 ^ e) % 2 = 0) := by
    have hnear := roundQuotient_near (n := n) (Nat.two_pow_pos e) k
    exact_mod_cast hnear
  rcases hq with ⟨k, rfl⟩ | hbelow
  · refine ⟨(hgrid k).1, fun heq => ((hgrid k).2 heq).imp_left ?_⟩
    rintro rfl
    rfl
  · have hn := ne_zero_of_log2 hlog
    have hlow : (2 ^ (52 + e) : ℚ) ≤ n := by
      exact_mod_cast hlog ▸ Nat.log2_self_le hn
    have hstart : ((2 ^ 52 : Nat) : ℚ) * 2 ^ e = 2 ^ (52 + e) := by
      rw [pow_add]
      norm_num
    have hless : |(roundQuotient n (2 ^ e) * 2 ^ e : ℚ) - n| < |q - n| := by
      calc |(roundQuotient n (2 ^ e) * 2 ^ e : ℚ) - n|
          ≤ |2 ^ (52 + e) - (n : ℚ)| := hstart ▸ (hgrid (2 ^ 52)).1
        _ = n - 2 ^ (52 + e) := by rw [abs_sub_comm, abs_of_nonneg (sub_nonneg.mpr hlow)]
        _ < n - q := sub_lt_sub_left hbelow _
        _ ≤ |q - n| := (le_abs_self _).trans_eq (abs_sub_comm _ _)
    exact ⟨hless.le, fun heq => absurd heq hless.ne'⟩

/-- An integer is its magnitude with its sign. -/
theorem cast_eq_signed (i : ℤ) :
    (i : ℚ) = if decide (i < 0) then -(i.natAbs : ℚ) else i.natAbs := by
  rcases lt_or_ge i 0 with hneg | hnonneg
  · have habs : (i.natAbs : ℤ) = -i := by omega
    rw [if_pos (decide_eq_true hneg), ← Int.cast_natCast, habs, Int.cast_neg, neg_neg]
  · have habs : (i.natAbs : ℤ) = i := by omega
    rw [if_neg (by simpa using hnonneg), ← Int.cast_natCast, habs]

theorem abs_value_sub_of_same (h : x.negative = decide (i < 0)) :
    |x.value - i| = |x.magnitude - i.natAbs| := by
  unfold value
  rw [cast_eq_signed i, h]
  cases decide (i < 0) with
  | true => rw [if_pos rfl, if_pos rfl, neg_sub_neg, abs_sub_comm]
  | false => rfl

theorem magnitude_nonneg (x : Double) : 0 ≤ x.magnitude := by
  unfold magnitude
  positivity

theorem abs_value_sub_of_other (h : x.negative ≠ decide (i < 0)) :
    |x.value - i| = x.magnitude + i.natAbs := by
  have hsum : 0 ≤ x.magnitude + i.natAbs := add_nonneg x.magnitude_nonneg (Nat.cast_nonneg _)
  unfold value
  rw [cast_eq_signed i, Bool.eq_not_of_ne h]
  cases decide (i < 0) with
  | true =>
    change |x.magnitude - -(i.natAbs : ℚ)| = _
    rw [sub_neg_eq_add, abs_of_nonneg hsum]
  | false =>
    change |-x.magnitude - (i.natAbs : ℚ)| = _
    rw [← neg_add', abs_neg, abs_of_nonneg hsum]

/-- What the double made of a large integer is. -/
theorem ofInt_large (hlog : Nat.log2 i.natAbs = 52 + e) (he : e < 900) :
    (ofInt i).negative = decide (i < 0) ∧
      (ofInt i).ratio = (roundQuotient i.natAbs (2 ^ e) * 2 ^ e, 1) ∧
      (roundQuotient i.natAbs (2 ^ e) % 2 = 0 → (ofInt i).significand % 2 = 0) := by
  obtain ⟨hbits, hlow, hhigh⟩ := nearestBits_large hlog
  have hfinite : nearestBits i.natAbs 1 < 2047 * twoTo 52 := by
    rw [hbits, twoTo_eq]
    omega
  unfold ofInt ofQuotient?
  rw [dif_pos hfinite]
  exact ⟨rfl, ratio_of_scaled hbits hlow hhigh⟩

theorem nearestTo_large (hlog : Nat.log2 i.natAbs = 52 + e) (hpos : 0 < e) (he : e < 900) :
    (ofInt i).NearestTo i := by
  obtain ⟨hsign, hratio, heven⟩ := ofInt_large hlog he
  have hmagnitude : (ofInt i).magnitude = roundQuotient i.natAbs (2 ^ e) * 2 ^ e := by
    unfold magnitude
    rw [hratio]
    push_cast
    exact div_one _
  have hdistance := abs_value_sub_of_same hsign
  rw [hmagnitude] at hdistance
  have hall (y : Double) : |(ofInt i).value - i| ≤ |y.value - i| ∧
      (|y.value - i| = |(ofInt i).value - i| →
        y.value = (ofInt i).value ∨ (ofInt i).significand % 2 = 0) := by
    rw [hdistance]
    by_cases hsame : y.negative = decide (i < 0)
    · obtain ⟨hnear, hrival⟩ := rounded_near hlog (y.magnitude_cases hpos)
      rw [abs_value_sub_of_same hsame]
      refine ⟨hnear, fun heq => (hrival heq).imp ?_ heven⟩
      intro hequal
      unfold value
      rw [hsame, hsign, hequal, hmagnitude]
    · -- Zero is on the grid, and a double of the other sign is no nearer than zero.
      have hzero : (∃ k : Nat, (0 : ℚ) = k * 2 ^ e) ∨ (0 : ℚ) < 2 ^ (52 + e) :=
        .inl ⟨0, by norm_num⟩
      obtain ⟨hnear, hrival⟩ := rounded_near hlog hzero
      rw [zero_sub, abs_neg, Nat.abs_cast] at hnear hrival
      have hmagnitude := y.magnitude_nonneg
      rw [abs_value_sub_of_other hsame]
      refine ⟨by linarith, fun heq => .inr (heven ?_)⟩
      rcases hrival (by linarith) with hequal | heven
      · have hround : (roundQuotient i.natAbs (2 ^ e) : ℚ) = 0 :=
          (mul_eq_zero.mp hequal.symm).resolve_right (by positivity)
        rw [Nat.cast_eq_zero.mp hround]
      · exact heven
  exact ⟨fun y => (hall y).1, fun y => (hall y).2⟩

end Large

section Integers

variable {i : ℤ}

theorem log2_of_inRange (h : Number.InRange i) : Nat.log2 i.natAbs < 65 := by
  obtain ⟨hlow, hhigh⟩ := h
  rw [twoTo_eq] at hlow hhigh
  by_cases hi : i.natAbs = 0
  · rw [hi]
    decide
  · rw [Nat.log2_lt hi]
    omega

theorem exists_log2_eq (h : Number.InRange i) (hlarge : 2 ^ 53 ≤ i.natAbs) :
    ∃ e, Nat.log2 i.natAbs = 52 + e ∧ 0 < e ∧ e < 900 := by
  have hlog : 53 ≤ Nat.log2 i.natAbs := (Nat.le_log2 (by omega)).mpr hlarge
  have hrange := log2_of_inRange h
  obtain ⟨e, he⟩ := Nat.exists_eq_add_of_le (Nat.le_of_succ_le hlog)
  exact ⟨e, he, by omega, by omega⟩

/-- No integer in range is beyond all doubles. -/
theorem ofQuotient?_inRange (h : Number.InRange i) :
    ofQuotient? (decide (i < 0)) i.natAbs 1 = some (ofInt i) := by
  have hfinite : nearestBits i.natAbs 1 < 2047 * twoTo 52 := by
    rw [twoTo_eq]
    rcases Nat.lt_or_ge i.natAbs (2 ^ 53) with hsmall | hlarge
    · by_cases hi : i.natAbs = 0
      · rw [hi]
        decide
      · have hlog : Nat.log2 i.natAbs < 53 := (Nat.log2_lt hi).mpr hsmall
        obtain ⟨k, hk⟩ := Nat.exists_eq_add_of_le (Nat.le_of_lt_succ hlog)
        have hshifted : i.natAbs * 2 ^ k < 2 ^ 53 := by
          have hpower : 2 ^ 53 = 2 ^ (Nat.log2 i.natAbs + 1) * 2 ^ k := by
            rw [← Nat.pow_add]
            congr 1
            omega
          rw [hpower]
          exact Nat.mul_lt_mul_of_pos_right Nat.lt_log2_self (Nat.two_pow_pos k)
        rw [nearestBits_one hi hk.symm]
        omega
    · obtain ⟨e, hlog, -, he⟩ := exists_log2_eq h hlarge
      obtain ⟨hbits, -, hhigh⟩ := nearestBits_large hlog
      rw [hbits]
      omega
  have hsome : ofQuotient? (decide (i < 0)) i.natAbs 1 =
      some ⟨decide (i < 0), nearestBits i.natAbs 1, hfinite⟩ := dif_pos hfinite
  unfold ofInt
  rw [hsome]
  rfl

theorem negative_ofInt (i : ℤ) : (ofInt i).negative = decide (i < 0) := by
  unfold ofInt ofQuotient?
  dsimp only
  split <;> rfl

theorem ratio_ofInt_zero : (ofInt 0).ratio.1 = 0 := by decide +kernel

theorem denominator_pos (x : Double) : 0 < x.ratio.2 := by
  unfold ratio
  split
  · exact Nat.one_pos
  · exact Nat.two_pow_pos _

/-- The magnitude of a small integer, as a quotient of whole numbers. -/
theorem ratio_ofInt_small (h : i.natAbs < 2 ^ 53) :
    ∃ d, 0 < d ∧ (ofInt i).ratio = (i.natAbs * d, d) := by
  by_cases hi : i = 0
  · subst hi
    have hzero := ratio_ofInt_zero
    have hpos := denominator_pos (ofInt 0)
    generalize (ofInt 0).ratio = r at hzero hpos ⊢
    refine ⟨r.2, hpos, Prod.ext ?_ rfl⟩
    rw [hzero, Int.natAbs_zero, Nat.zero_mul]
  · obtain ⟨k, hratio⟩ := ofInt_ratio hi h
    exact ⟨2 ^ k, Nat.two_pow_pos k, hratio⟩

/-- A small integer is a double itself. -/
theorem value_ofInt_small (h : i.natAbs < 2 ^ 53) : (ofInt i).value = i := by
  obtain ⟨d, hd, hratio⟩ := ratio_ofInt_small h
  have hmagnitude : (ofInt i).magnitude = i.natAbs := by
    have hne : (d : ℚ) ≠ 0 := by exact_mod_cast hd.ne'
    unfold magnitude
    rw [hratio, Nat.cast_mul, mul_div_cancel_right₀ _ hne]
  have hdistance := abs_value_sub_of_same (negative_ofInt i)
  rw [hmagnitude, sub_self, abs_zero, abs_eq_zero, sub_eq_zero] at hdistance
  exact hdistance

theorem truncate_ofInt_small (h : i.natAbs < 2 ^ 53) : (ofInt i).truncate = i := by
  obtain ⟨d, hd, hratio⟩ := ratio_ofInt_small h
  unfold truncate
  rw [hratio, negative_ofInt, Nat.mul_div_cancel _ hd]
  rcases lt_or_ge i 0 with hneg | hnonneg
  · rw [if_pos (decide_eq_true hneg)]
    omega
  · rw [if_neg (by simpa using hnonneg)]
    omega

/-- A large integer becomes a double that is large and whole as well. -/
theorem ofInt_stays_large (h : Number.InRange i) (hlarge : 2 ^ 53 ≤ i.natAbs) :
    (ofInt i).isWhole = true ∧ 2 ^ 53 ≤ (ofInt i).truncate.natAbs := by
  obtain ⟨e, hlog, hpos, he⟩ := exists_log2_eq h hlarge
  obtain ⟨-, hratio, -⟩ := ofInt_large hlog he
  obtain ⟨-, hlow, -⟩ := nearestBits_large hlog
  have hgrid : 2 ^ 52 * 2 ^ 1 ≤ roundQuotient i.natAbs (2 ^ e) * 2 ^ e :=
    Nat.mul_le_mul hlow (Nat.pow_le_pow_right (by decide) hpos)
  constructor
  · simp [isWhole, hratio, Nat.mod_one]
  · unfold truncate
    rw [hratio]
    dsimp only
    split <;> omega

theorem isWhole_of_inRange (h : Number.InRange i) : (ofInt i).isWhole = true := by
  rcases Nat.lt_or_ge i.natAbs (2 ^ 53) with hsmall | hlarge
  · exact isWhole_ofInt hsmall
  · exact (ofInt_stays_large h hlarge).1

theorem nearestTo_ofInt (h : Number.InRange i) : (ofInt i).NearestTo i := by
  rcases Nat.lt_or_ge i.natAbs (2 ^ 53) with hsmall | hlarge
  · have hvalue := value_ofInt_small hsmall
    constructor
    · intro y
      rw [hvalue, sub_self, abs_zero]
      exact abs_nonneg _
    · intro y heq
      rw [hvalue, sub_self, abs_zero, abs_eq_zero, sub_eq_zero] at heq
      exact .inl (heq.trans hvalue.symm)
  · obtain ⟨e, hlog, hpos, he⟩ := exists_log2_eq h hlarge
    exact nearestTo_large hlog hpos he

end Integers

end Double

namespace Coerce

variable {i : ℤ}

theorem intChars_notBlank (i : ℤ) : ∀ c ∈ Json.intChars i, Text.isBlank c = false := by
  have hdigits : ∀ c ∈ Nat.toDigits 10 i.natAbs, Text.isBlank c = false :=
    fun _ hc => Text.isBlank_of_isDigit (Json.isDigit_of_mem_toDigits hc)
  unfold Json.intChars
  split
  · exact List.forall_mem_cons.mpr ⟨by decide, hdigits⟩
  · exact hdigits

/-- The text of an integer is a numeral without point and exponent. -/
theorem readNumeral?_intChars (i : ℤ) : ∃ sign, Numeral.read? (Json.intChars i) =
    some ⟨sign, Nat.toDigits 10 i.natAbs, none, none⟩ ∧ decide (sign = some '-') = decide (i < 0) := by
  obtain ⟨hplain, hsigned⟩ := Json.readNumeral?_digits i.natAbs
  unfold Json.intChars
  split
  · next hneg => exact ⟨_, hsigned, by simp [hneg]⟩
  · next hnonneg => exact ⟨_, hplain, by simp [hnonneg]⟩

/-- The digits of an integer without point and exponent are rounded as the integer is. -/
theorem ofDecimal?_whole (h : Number.InRange i) :
    Double.ofDecimal? (decide (i < 0)) i.natAbs 0 = some (Double.ofInt i) := by
  have hlength : (Nat.toDigits 10 i.natAbs).length ≤ 20 := by
    rw [Nat.length_toDigits_le_iff (by decide) (by decide)]
    obtain ⟨hlow, hhigh⟩ := h
    rw [Double.twoTo_eq] at hlow hhigh
    omega
  unfold Double.ofDecimal?
  dsimp only
  split_ifs with hzero hlarge
  · have hi : i = 0 := by
      rw [Bool.or_eq_true, decide_eq_true_iff, decide_eq_true_iff] at hzero
      omega
    subst hi
    decide +kernel
  · omega
  · have hone : i.natAbs * tenTo (0 : ℤ).toNat = i.natAbs := Nat.mul_one _
    rw [hone]
    exact Double.ofQuotient?_inRange h
  · contradiction

/-- The double that the text of an integer is read as is the one that the integer becomes. -/
theorem toDouble?_text (h : Number.InRange i) :
    (Numeral.read? (Text.trimChars (toString i).toList)).bind Numeral.toDouble? =
      some (Double.ofInt i) := by
  obtain ⟨sign, hread, hsign⟩ := readNumeral?_intChars i
  have hvalue : Numeral.digitsValue (Nat.toDigits 10 i.natAbs ++ []) = i.natAbs := by
    rw [List.append_nil, CalendarDate.digitsValue_eq]
    exact Nat.ofDigitChars_ten_toDigits
  rw [Json.toString_toList, Text.trimChars_eq (intChars_notBlank i), hread, Option.bind_some]
  change Double.ofDecimal? (decide (sign = some '-')) (Numeral.digitsValue (_ ++ [])) (0 - 0) = _
  rw [hsign, hvalue]
  exact ofDecimal?_whole h

theorem numberOf_small (h : i.natAbs < 2 ^ 53) : numberOf (Double.ofInt i) = .int i := by
  have hlimit : i.natAbs < exactLimit := h
  unfold numberOf
  rw [Double.isWhole_ofInt h, Double.truncate_ofInt_small h, decide_eq_true hlimit]
  rfl

theorem numberOf_large (h : Number.InRange i) (hlarge : 2 ^ 53 ≤ i.natAbs) :
    numberOf (Double.ofInt i) = .float (Double.ofInt i) := by
  have hlimit : ¬ (Double.ofInt i).truncate.natAbs < exactLimit :=
    Nat.not_lt.mpr (Double.ofInt_stays_large h hlarge).2
  unfold numberOf
  rw [decide_eq_false hlimit, Bool.and_false]
  rfl

theorem number_int (integer : Bool) (h : Number.InRange i) :
    number integer (.num (.int i)) = .ok (.int i) :=
  number_num_iff.mpr fun _ => Double.isWhole_of_inRange h

/-- The text of an integer comes to the number that stands for its double. -/
theorem number_text (integer : Bool) (h : Number.InRange i) :
    number integer (.str (toString i)) = .ok (numberOf (Double.ofInt i)) := by
  unfold number
  dsimp only
  rw [toDouble?_text h]
  exact whole_ok_iff.mpr fun _ => Double.isWhole_of_inRange h

/--
An integer goes through either kind of number as it is. Its text comes to the same where it has at
most 53 bits, and to a float beyond, which is the nearest there is.
-/
theorem number_of_digits (integer : Bool) (n : ℤ) (h : Number.InRange n) :
    number integer (.num (.int n)) = .ok (.int n) ∧
    (n.natAbs < 2 ^ 53 → number integer (.str (toString n)) = .ok (.int n)) ∧
    (2 ^ 53 ≤ n.natAbs → ∃ x, number integer (.str (toString n)) = .ok (.float x) ∧
      x.NearestTo n) ∧
    (number integer (.str (toString n)) = number integer (.num (.int n)) ↔ n.natAbs < 2 ^ 53) := by
  have hsmall (hn : n.natAbs < 2 ^ 53) : number integer (.str (toString n)) = .ok (.int n) := by
    rw [number_text integer h, numberOf_small hn]
  have hlarge (hn : 2 ^ 53 ≤ n.natAbs) :
      number integer (.str (toString n)) = .ok (.float (Double.ofInt n)) := by
    rw [number_text integer h, numberOf_large h hn]
  refine ⟨number_int integer h, hsmall, fun hn => ⟨_, hlarge hn, Double.nearestTo_ofInt h⟩, ?_⟩
  rw [number_int integer h]
  refine ⟨fun hsame => ?_, hsmall⟩
  by_contra hn
  cases (hlarge (Nat.not_lt.mp hn)).symm.trans hsame

/-- The first integer with more bits is a double, but its text comes to a float. -/
theorem digits_become_float : number true (.num (.int 9007199254740992)) =
      .ok (.int 9007199254740992) ∧
    number true (.str "9007199254740992") ≠ number true (.num (.int 9007199254740992)) := by
  have hrange : Number.InRange 9007199254740992 := by decide
  have htext : toString (9007199254740992 : ℤ) = "9007199254740992" := by decide +kernel
  have hfloat := number_text true hrange
  rw [numberOf_large hrange (by decide), htext] at hfloat
  refine ⟨number_int true hrange, fun hsame => ?_⟩
  cases hfloat.symm.trans (hsame.trans (number_int true hrange))

/-- Between two doubles the text comes to the even one, and an integer of 53 bits stays. -/
theorem digits_rounded : Number.InRange 9007199254740993 ∧
    (∃ x, number false (.str (toString (9007199254740993 : ℤ))) = .ok (.float x) ∧
      x.NearestTo 9007199254740993) ∧
    Number.InRange (-9007199254740991) ∧
    number true (.str (toString (-9007199254740991 : ℤ))) = .ok (.int (-9007199254740991)) := by
  have hlarge : Number.InRange 9007199254740993 := by decide
  have hsmall : Number.InRange (-9007199254740991) := by decide
  exact ⟨hlarge, (number_of_digits false _ hlarge).2.2.1 (by decide), hsmall,
    (number_of_digits true _ hsmall).2.1 (by decide)⟩

end Coerce

end Conform
