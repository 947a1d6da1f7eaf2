import ExactCalculator.Operator
import ExactCalculator.Proofs.Decimal.Value
import Mathlib.Algebra.Order.Round
import Mathlib.Tactic.Linarith

/-!
Rounding of rational numbers to whole ones, a half to the even neighbour. The rule determines one
whole number for every rational (`IsNearestEven.unique`), and division follows it: a quotient at a
given scale is the rounded quotient of the numbers, so it depends on the numbers alone. With it
every operator has a meaning on rationals (`apply_cases`).
-/
namespace ExactCalculator

structure IsNearestEven (x : ℚ) (q : Int) : Prop where
  near : |q - x| ≤ 1 / 2
  even : |q - x| = 1 / 2 → Even q

/-- The whole number nearest to a rational; of two equally near ones the even one. -/
def nearestEven (x : ℚ) : Int :=
  if Int.fract x < 1 / 2 ∨ Int.fract x = 1 / 2 ∧ Even ⌊x⌋ then ⌊x⌋ else ⌊x⌋ + 1

theorem isNearestEven_nearestEven (x : ℚ) : IsNearestEven x (nearestEven x) := by
  have hfract : x = ⌊x⌋ + Int.fract x := (Int.floor_add_fract x).symm
  have hnonneg := Int.fract_nonneg x
  have hlt := Int.fract_lt_one x
  unfold nearestEven
  split
  next h =>
    have habs : |(⌊x⌋ : ℚ) - x| = Int.fract x := by
      rw [abs_sub_comm, abs_of_nonneg (by linarith)]
      linarith
    constructor
    · rw [habs]
      rcases h with h | h
      · exact h.le
      · exact h.1.le
    · intro htie
      rw [habs] at htie
      rcases h with h | h
      · exact absurd htie h.ne
      · exact h.2
  next h =>
    push Not at h
    have habs : |((⌊x⌋ + 1 : Int) : ℚ) - x| = 1 - Int.fract x := by
      push_cast
      rw [abs_of_nonneg (by linarith)]
      linarith
    constructor
    · rw [habs]
      linarith [h.1]
    · intro htie
      rw [habs] at htie
      exact Int.even_add_one.mpr (h.2 (by linarith))

/-- Two whole numbers at most a half away from one number are equal or neighbours; of neighbours
only one is even. -/
theorem IsNearestEven.unique {x : ℚ} {q r : Int} (hq : IsNearestEven x q)
    (hr : IsNearestEven x r) : q = r := by
  have hq' := abs_le.mp hq.near
  have hr' := abs_le.mp hr.near
  have hle : q ≤ r + 1 := by
    have : (q : ℚ) ≤ r + 1 := by linarith
    exact_mod_cast this
  have hge : r ≤ q + 1 := by
    have : (r : ℚ) ≤ q + 1 := by linarith
    exact_mod_cast this
  by_contra hne
  rcases (show q = r + 1 ∨ r = q + 1 by omega) with rfl | rfl
  · push_cast at hq'
    have hx : x = r + 1 / 2 := by linarith
    have hqe : Even (r + 1) := hq.even (by subst hx; push_cast; norm_num)
    have hre : Even r := hr.even (by subst hx; norm_num)
    exact Int.even_add_one.mp hqe hre
  · push_cast at hr'
    have hx : x = q + 1 / 2 := by linarith
    have hqe : Even q := hq.even (by subst hx; norm_num)
    have hre : Even (q + 1) := hr.even (by subst hx; push_cast; norm_num)
    exact Int.even_add_one.mp hre hqe

theorem isNearestEven_iff {x : ℚ} {q : Int} : IsNearestEven x q ↔ q = nearestEven x :=
  ⟨fun h => h.unique (isNearestEven_nearestEven x), fun h => h ▸ isNearestEven_nearestEven x⟩

/-- Rounding goes the same way on both sides of zero. -/
theorem IsNearestEven.neg {x : ℚ} {q : Int} (h : IsNearestEven x q) : IsNearestEven (-x) (-q) := by
  have habs : |((-q : Int) : ℚ) - -x| = |q - x| := by
    rw [← abs_neg]
    push_cast
    ring_nf
  constructor
  · rw [habs]
    exact h.near
  · intro htie
    rw [habs] at htie
    exact (h.even htie).neg

/-- Only the two neighbours of a quotient are results of rounding it. -/
theorem roundHalfEven_eq_or (num den : Nat) :
    roundHalfEven num den = num / den ∨ roundHalfEven num den = num / den + 1 := by
  unfold roundHalfEven
  split <;> omega

/-- Half a unit is missing on either side only when the remainder is half the divisor. -/
theorem two_mul_mod_of_tie {num den : Nat} (h : 0 < den)
    (htie : 2 * (den * roundHalfEven num den) = 2 * num + den ∨
      2 * (den * roundHalfEven num den) + den = 2 * num) : 2 * (num % den) = den := by
  have hdiv := Nat.div_add_mod num den
  have hmod := Nat.mod_lt num h
  obtain hr | hr := roundHalfEven_eq_or num den
  · rw [hr] at htie
    omega
  · rw [hr, Nat.mul_add, Nat.mul_one] at htie
    omega

theorem isNearestEven_roundHalfEven (num : Nat) {den : Nat} (h : 0 < den) :
    IsNearestEven (num / den) (roundHalfEven num den) := by
  have hden : (0 : ℚ) < den := by exact_mod_cast h
  have hnum : (num : ℚ) / den * den = num := div_mul_cancel₀ _ hden.ne'
  generalize hx : (num : ℚ) / den = x at hnum ⊢
  have hupper : 2 * (den * (roundHalfEven num den : ℚ)) ≤ 2 * num + den := by
    exact_mod_cast roundHalfEven_le num h
  have hlower : 2 * (num : ℚ) ≤ 2 * (den * roundHalfEven num den) + den := by
    exact_mod_cast le_roundHalfEven num h
  rw [← hnum] at hupper hlower
  constructor
  · rw [Int.cast_natCast, abs_le]
    constructor
    · refine le_of_mul_le_mul_left ?_ hden
      linarith
    · refine le_of_mul_le_mul_left ?_ hden
      linarith
  · intro hhalf
    rw [Int.cast_natCast] at hhalf
    have htie : 2 * (den * roundHalfEven num den) = 2 * num + den ∨
        2 * (den * roundHalfEven num den) + den = 2 * num := by
      obtain hpos | hneg := eq_or_eq_neg_of_abs_eq hhalf
      · left
        have : 2 * (den * (roundHalfEven num den : ℚ)) = 2 * num + den := by
          rw [← hnum, sub_eq_iff_eq_add.mp hpos]
          ring
        exact_mod_cast this
      · right
        have : 2 * (den * (roundHalfEven num den : ℚ)) + den = 2 * num := by
          rw [← hnum, sub_eq_iff_eq_add.mp hneg]
          ring
        exact_mod_cast this
    have heven := roundHalfEven_even (two_mul_mod_of_tie h htie)
    exact (Int.even_coe_nat _).mpr (Nat.even_iff.mpr heven)

/-- Rounding a quotient of magnitudes and putting the signs back rounds the signed quotient. -/
theorem isNearestEven_sign_mul (num den : Int) (h : den ≠ 0) :
    IsNearestEven (num / den) (num.sign * den.sign * roundHalfEven num.natAbs den.natAbs) := by
  have hnat := isNearestEven_roundHalfEven num.natAbs (Int.natAbs_pos.mpr h)
  rw [Nat.cast_natAbs, Nat.cast_natAbs, Int.cast_abs, Int.cast_abs] at hnat
  obtain hn | rfl | hn := Int.lt_trichotomy num 0
  · have hnum : |(num : ℚ)| = -num := abs_of_neg (by exact_mod_cast hn)
    rw [Int.sign_eq_neg_one_of_neg hn]
    obtain hd | hd := Int.lt_or_gt_of_ne h
    · rw [hnum, abs_of_neg (by exact_mod_cast hd), neg_div_neg_eq] at hnat
      rw [Int.sign_eq_neg_one_of_neg hd]
      simpa using hnat
    · rw [hnum, abs_of_pos (by exact_mod_cast hd), neg_div] at hnat
      rw [Int.sign_eq_one_of_pos hd]
      simpa using hnat.neg
  · simpa using hnat
  · have hnum : |(num : ℚ)| = num := abs_of_pos (by exact_mod_cast hn)
    rw [Int.sign_eq_one_of_pos hn]
    obtain hd | hd := Int.lt_or_gt_of_ne h
    · rw [hnum, abs_of_neg (by exact_mod_cast hd), div_neg] at hnat
      rw [Int.sign_eq_neg_one_of_neg hd]
      simpa using hnat.neg
    · rw [hnum, abs_of_pos (by exact_mod_cast hd)] at hnat
      rw [Int.sign_eq_one_of_pos hd]
      simpa using hnat

namespace Decimal

/-- A quotient has the rounded quotient of the numbers as its mantissa. -/
theorem mantissa_of_divRounded? {a b q : Decimal} {scale : Nat}
    (h : a.divRounded? b scale = some q) :
    q.mantissa = nearestEven (a.toRat / b.toRat * 10 ^ scale) := by
  simp only [divRounded?, Option.ite_none_left_eq_some, Option.some.injEq] at h
  obtain ⟨hb, rfl⟩ := h
  have hden : b.mantissa * powTen a.scale ≠ 0 :=
    Int.mul_ne_zero hb (by exact_mod_cast (powTen_pos a.scale).ne')
  have hquot : ((a.mantissa * powTen (b.scale + scale) : Int) : ℚ) /
      (b.mantissa * powTen a.scale : Int) = a.toRat / b.toRat * 10 ^ scale := by
    have : (b.mantissa : ℚ) ≠ 0 := by exact_mod_cast hb
    push_cast
    rw [cast_powTen, cast_powTen, toRat, toRat, pow_add]
    field_simp
  rw [← hquot]
  exact isNearestEven_iff.mp (isNearestEven_sign_mul _ _ hden)

/-- A quotient stands for the rounded quotient of the numbers. -/
theorem toRat_of_divRounded? {a b q : Decimal} {scale : Nat}
    (h : a.divRounded? b scale = some q) :
    q.toRat = nearestEven (a.toRat / b.toRat * 10 ^ scale) / 10 ^ scale := by
  rw [toRat, mantissa_of_divRounded? h, scale_of_divRounded? h]

end Decimal

namespace Operator

/-- What an operator means on rationals: everything but division is exact, and a quotient is the
nearest multiple of `10 ^ (-4)`, of two equally near ones the one with the even last digit. -/
def onRat : Operator → ℚ → ℚ → ℚ
  | .plus, x, y => x + y
  | .minus, x, y => x - y
  | .star, x, y => x * y
  | .slash, x, y => nearestEven (x / y * 10 ^ 4) / 10 ^ 4

/-- An operator fails on a zero divisor, and else stands for its meaning on the numbers. -/
theorem apply_cases (op : Operator) (a b : Decimal) :
    (op = .slash ∧ b.toRat = 0 ∧ op.apply a b = .error .divisionByZero) ∨
      (¬ (op = .slash ∧ b.toRat = 0) ∧
        ∃ d, op.apply a b = .ok d ∧ d.toRat = op.onRat a.toRat b.toRat) := by
  cases op with
  | plus => exact .inr ⟨by simp, a + b, rfl, Decimal.toRat_add a b⟩
  | minus => exact .inr ⟨by simp, a - b, rfl, Decimal.toRat_sub a b⟩
  | star => exact .inr ⟨by simp, a * b, rfl, Decimal.toRat_mul a b⟩
  | slash =>
    rw [Decimal.toRat_eq_zero_iff]
    cases hq : a.divRounded? b divisionScale with
    | none =>
      have hb := (Decimal.divRounded?_eq_none_iff a b divisionScale).mp hq
      exact .inl ⟨rfl, hb, by simp [apply, hq]⟩
    | some q =>
      have hb : b.mantissa ≠ 0 := by
        intro hb
        rw [(Decimal.divRounded?_eq_none_iff a b divisionScale).mpr hb] at hq
        cases hq
      exact .inr ⟨fun h => hb h.2, q, by simp [apply, hq], Decimal.toRat_of_divRounded? hq⟩

end Operator
end ExactCalculator
