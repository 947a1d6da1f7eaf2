import ExactCalculator.Limits
import ExactCalculator.Proofs.Decimal.Nearest

/-!
Quotients at any scale. A divisor that stands for zero has no quotient, and every other quotient is
the one decimal of the scale asked for whose mantissa is nearest to the exact quotient, half way the
even one (`divRounded?_eq_iff`). So the scales of the operands do not matter, and a change of the
sign of either operand changes the sign of the quotient and nothing else.

Division adds the scale asked for to that of the divisor. With scales in words it gives this
quotient exactly when that sum is a word, or when the divisor is zero and nothing is added
(`divRoundedBelow?_nearest`).
-/
namespace ExactCalculator.Decimal

/-- The rounded mantissa and the scale determine a quotient, and only a zero divisor has none. -/
theorem divRounded?_eq_some_iff {a b q : Decimal} {scale : Nat} :
    a.divRounded? b scale = some q ↔
      b.toRat ≠ 0 ∧ q.scale = scale ∧
        IsNearestEven (a.toRat / b.toRat * 10 ^ scale) q.mantissa := by
  constructor
  · intro h
    refine ⟨fun hb => ?_, scale_of_divRounded? h, isNearestEven_iff.mpr (mantissa_of_divRounded? h)⟩
    rw [toRat_eq_zero_iff, ← divRounded?_eq_none_iff a b scale, h] at hb
    cases hb
  · rintro ⟨hb, hscale, hnear⟩
    cases h : a.divRounded? b scale with
    | none =>
      rw [divRounded?_eq_none_iff, ← toRat_eq_zero_iff] at h
      exact absurd h hb
    | some r =>
      have hmantissa : r.mantissa = q.mantissa := by
        rw [mantissa_of_divRounded? h, ← isNearestEven_iff.mp hnear]
      have hr : r.scale = q.scale := (scale_of_divRounded? h).trans hscale.symm
      cases r
      cases q
      rw [Option.some.injEq, mk.injEq]
      exact ⟨hmantissa, hr⟩

/-- What a division to some places has to give: nothing by zero, and otherwise a decimal of that
scale with the one mantissa that is nearest to the exact quotient, half way the even one. -/
def IsQuotient (a b : Decimal) (scale : Nat) : Option Decimal → Prop
  | none => b.toRat = 0
  | some q => b.toRat ≠ 0 ∧ q.scale = scale ∧
    IsNearestEven (a.toRat / b.toRat * 10 ^ scale) q.mantissa ∧
    ∀ r : Int, IsNearestEven (a.toRat / b.toRat * 10 ^ scale) r → r = q.mantissa

theorem divRounded?_eq_iff {a b : Decimal} {scale : Nat} {q : Option Decimal} :
    a.divRounded? b scale = q ↔ IsQuotient a b scale q := by
  cases q with
  | none => rw [divRounded?_eq_none_iff, IsQuotient, toRat_eq_zero_iff]
  | some q =>
    rw [divRounded?_eq_some_iff, IsQuotient]
    constructor
    · rintro ⟨hb, hscale, hnear⟩
      exact ⟨hb, hscale, hnear, fun r hr => hr.unique hnear⟩
    · rintro ⟨hb, hscale, hnear, -⟩
      exact ⟨hb, hscale, hnear⟩

/-- Operands that stand for the same numbers have the same quotient, whatever their scales. -/
theorem divRounded?_congr {a a' b b' : Decimal} (ha : a'.toRat = a.toRat)
    (hb : b'.toRat = b.toRat) (scale : Nat) : a'.divRounded? b' scale = a.divRounded? b scale := by
  ext q
  rw [divRounded?_eq_some_iff, divRounded?_eq_some_iff, ha, hb]

/-- The opposite of an exact quotient is rounded to the opposite of the rounded quotient. -/
theorem divRounded?_opposite {a a' b b' : Decimal} (hzero : b'.toRat = 0 ↔ b.toRat = 0)
    (h : a'.toRat / b'.toRat = -(a.toRat / b.toRat)) (scale : Nat) :
    a'.divRounded? b' scale = (a.divRounded? b scale).map (- ·) := by
  cases hq : a.divRounded? b scale with
  | none =>
    rw [divRounded?_eq_none_iff, ← toRat_eq_zero_iff] at hq
    rw [Option.map_none, divRounded?_eq_none_iff, ← toRat_eq_zero_iff]
    exact hzero.mpr hq
  | some q =>
    obtain ⟨hb, hscale, hnear⟩ := divRounded?_eq_some_iff.mp hq
    rw [Option.map_some, divRounded?_eq_some_iff]
    refine ⟨fun hb' => hb (hzero.mp hb'), hscale, ?_⟩
    rw [h, neg_mul, mantissa_neg]
    exact hnear.neg

theorem divRounded?_neg_left (a b : Decimal) (scale : Nat) :
    (-a).divRounded? b scale = (a.divRounded? b scale).map (- ·) := by
  refine divRounded?_opposite Iff.rfl ?_ scale
  rw [toRat_neg, neg_div]

theorem divRounded?_neg_right (a b : Decimal) (scale : Nat) :
    a.divRounded? (-b) scale = (a.divRounded? b scale).map (- ·) := by
  refine divRounded?_opposite ?_ ?_ scale
  · rw [toRat_neg, neg_eq_zero]
  · rw [toRat_neg, div_neg]

/-- Below the limit division gives the exact function's answer, and it reaches the limit only where
a divisor other than zero has too many places to be extended. -/
theorem divRoundedBelow?_eq_some_iff {limit scale : Nat} {a b : Decimal} {q : Option Decimal} :
    divRoundedBelow? limit a b scale = some q ↔
      (b.toRat = 0 ∨ b.scale + scale < limit ∧ a.scale < limit) ∧ a.divRounded? b scale = q := by
  rw [divRoundedBelow?_eq_ite, Option.ite_none_right_eq_some, Option.some.injEq, toRat_eq_zero_iff]

/-- With scales in words, division to some places gives what it has to give exactly when the divisor
is zero or its scale and the places together are a word. Otherwise it gives nothing at all. What it
gives depends only on the numbers that the operands stand for, and it changes its sign with either
of them. -/
theorem divRoundedBelow?_nearest (a b : Decimal) (scale : Nat) (ha : a.scale < scaleLimit) :
    (b.toRat = 0 ∨ b.scale + scale < scaleLimit →
      ∃ q, divRoundedBelow? scaleLimit a b scale = some q ∧ IsQuotient a b scale q) ∧
    (¬ (b.toRat = 0 ∨ b.scale + scale < scaleLimit) →
      divRoundedBelow? scaleLimit a b scale = none) ∧
    (∀ a' b' q q', a'.toRat = a.toRat → b'.toRat = b.toRat →
      divRoundedBelow? scaleLimit a b scale = some q →
      divRoundedBelow? scaleLimit a' b' scale = some q' → q' = q) ∧
    divRoundedBelow? scaleLimit (-a) b scale =
      (divRoundedBelow? scaleLimit a b scale).map (Option.map (- ·)) ∧
    divRoundedBelow? scaleLimit a (-b) scale =
      (divRoundedBelow? scaleLimit a b scale).map (Option.map (- ·)) := by
  refine ⟨fun h => ?_, fun h => ?_, ?_, ?_, ?_⟩
  · refine ⟨a.divRounded? b scale, divRoundedBelow?_eq_some_iff.mpr ⟨?_, rfl⟩,
      divRounded?_eq_iff.mp rfl⟩
    exact h.imp_right fun hsum => ⟨hsum, ha⟩
  · rw [divRoundedBelow?_eq_ite, if_neg]
    rw [toRat_eq_zero_iff] at h
    exact fun hsum => h (hsum.imp_right And.left)
  · intro a' b' q q' ha' hb' hq hq'
    rw [← (divRoundedBelow?_eq_some_iff.mp hq).2, ← (divRoundedBelow?_eq_some_iff.mp hq').2]
    exact divRounded?_congr ha' hb' scale
  · rw [divRoundedBelow?_eq_ite, divRoundedBelow?_eq_ite, scale_neg, divRounded?_neg_left]
    split <;> rfl
  · have hzero : (-b).mantissa = 0 ↔ b.mantissa = 0 := Int.neg_eq_zero
    simp only [divRoundedBelow?_eq_ite, scale_neg, divRounded?_neg_right, hzero]
    split <;> rfl

/-- `-3 / 32` is half way between two mantissas, and `-3.00 / 32.0` is rounded as it is. -/
theorem divRoundedBelow?_nearest_instances :
    (∃ q, divRoundedBelow? scaleLimit ⟨-3, 0⟩ ⟨32, 0⟩ 4 = some q ∧
      IsQuotient ⟨-3, 0⟩ ⟨32, 0⟩ 4 q) ∧
    divRoundedBelow? scaleLimit ⟨-3, 0⟩ ⟨32, 0⟩ 4 = some (some ⟨-938, 4⟩) ∧
    ∀ q, divRoundedBelow? scaleLimit ⟨-300, 2⟩ ⟨320, 1⟩ 4 = some q → q = some ⟨-938, 4⟩ := by
  have hword : (0 : Nat) < scaleLimit := by decide
  obtain ⟨hnear, -, hsame, -⟩ := divRoundedBelow?_nearest ⟨-3, 0⟩ ⟨32, 0⟩ 4 hword
  have hquotient : divRoundedBelow? scaleLimit ⟨-3, 0⟩ ⟨32, 0⟩ 4 = some (some ⟨-938, 4⟩) := by
    decide +kernel
  refine ⟨hnear (.inr (by decide)), hquotient, fun q hq => ?_⟩
  exact hsame ⟨-300, 2⟩ ⟨320, 1⟩ _ q (by norm_num [toRat]) (by norm_num [toRat]) hquotient hq

/-- `1 / 0.1` to the largest number of places that is a word: the divisor is not zero, and there is
no quotient. -/
theorem no_quotient_of_large_scale :
    toRat ⟨1, 1⟩ ≠ 0 ∧ 2 ^ 32 - 1 < scaleLimit ∧
      divRoundedBelow? scaleLimit ⟨1, 0⟩ ⟨1, 1⟩ (2 ^ 32 - 1) = none := by
  refine ⟨by norm_num [toRat], by decide, ?_⟩
  rw [divRoundedBelow?_eq_ite, if_neg (by decide)]

end ExactCalculator.Decimal
