import ExactCalculator.Decimal.Basic
import Mathlib.Data.Rat.Floor
import Mathlib.Tactic.FieldSimp
import Mathlib.Tactic.Ring

/-!
The rational number that a decimal stands for. Sums, differences, products and negations stand for
exactly those of the operands' numbers, and two decimals have one value exactly when they stand
for one number, whatever their scales are.
-/
namespace ExactCalculator

@[simp] theorem cast_powTen (k : Nat) : ((powTen k : Nat) : ℚ) = 10 ^ k := by
  simp [powTen]

namespace Decimal

def toRat (d : Decimal) : ℚ := d.mantissa / 10 ^ d.scale

theorem toRat_mul_pow (d : Decimal) : d.toRat * 10 ^ d.scale = d.mantissa := by
  have : (10 : ℚ) ^ d.scale ≠ 0 := by positivity
  rw [toRat, div_mul_cancel₀ _ this]

/-- More zeros at the end of the places do not change the number. -/
theorem toRat_mk_add (mantissa : Int) (scale zeros : Nat) :
    toRat ⟨mantissa * 10 ^ zeros, scale + zeros⟩ = toRat ⟨mantissa, scale⟩ := by
  rw [toRat, toRat, pow_add]
  push_cast
  field_simp

/-- Widening a mantissa multiplies the number by the power of ten of the new scale. -/
theorem cast_mantissaAt (d : Decimal) {scale : Nat} (h : d.scale ≤ scale) :
    (d.mantissaAt scale : ℚ) = d.toRat * 10 ^ scale := by
  obtain ⟨more, rfl⟩ := Nat.exists_eq_add_of_le h
  rw [mantissaAt, Nat.add_sub_cancel_left, pow_add, ← mul_assoc, toRat_mul_pow]
  push_cast
  rw [cast_powTen]

theorem scale_le_commonScale_left (a b : Decimal) : a.scale ≤ commonScale a b :=
  Nat.le_max_left _ _

theorem scale_le_commonScale_right (a b : Decimal) : b.scale ≤ commonScale a b :=
  Nat.le_max_right _ _

@[simp] theorem toRat_eq_zero_iff (d : Decimal) : d.toRat = 0 ↔ d.mantissa = 0 := by
  simp [toRat]

theorem toRat_neg_iff (d : Decimal) : d.toRat < 0 ↔ d.mantissa < 0 := by
  have hpow : (0 : ℚ) < 10 ^ d.scale := by positivity
  rw [toRat, div_lt_iff₀ hpow, zero_mul, Int.cast_lt_zero]

@[simp] theorem toRat_add (a b : Decimal) : (a + b).toRat = a.toRat + b.toRat := by
  change ((a.mantissaAt (commonScale a b) + b.mantissaAt (commonScale a b) : Int) : ℚ) /
    10 ^ commonScale a b = _
  rw [Int.cast_add, cast_mantissaAt a (scale_le_commonScale_left a b),
    cast_mantissaAt b (scale_le_commonScale_right a b)]
  field_simp

@[simp] theorem toRat_mul (a b : Decimal) : (a * b).toRat = a.toRat * b.toRat := by
  simp only [toRat, mantissa_mul, scale_mul, Int.cast_mul, pow_add]
  field_simp

@[simp] theorem toRat_neg (a : Decimal) : (-a).toRat = -a.toRat := by
  simp only [toRat, mantissa_neg, scale_neg, Int.cast_neg]
  ring

/-- Subtraction aligns the operands as addition does. -/
protected theorem sub_eq_add_neg (a b : Decimal) : a - b = a + -b := by
  have hneg : (-b).mantissaAt (commonScale a b) = -b.mantissaAt (commonScale a b) :=
    Int.neg_mul ..
  change mk _ _ = mk _ _
  rw [Int.sub_eq_add_neg, ← hneg]
  rfl

@[simp] theorem toRat_sub (a b : Decimal) : (a - b).toRat = a.toRat - b.toRat := by
  rw [Decimal.sub_eq_add_neg, toRat_add, toRat_neg, sub_eq_add_neg]

/-- Mantissas at one common scale are equal exactly when the numbers are. -/
theorem mantissaAt_eq_iff (a b : Decimal) {scale : Nat} (ha : a.scale ≤ scale)
    (hb : b.scale ≤ scale) : a.mantissaAt scale = b.mantissaAt scale ↔ a.toRat = b.toRat := by
  have hpow : (10 : ℚ) ^ scale ≠ 0 := by positivity
  rw [← Int.cast_inj (α := ℚ), cast_mantissaAt a ha, cast_mantissaAt b hb, mul_left_inj' hpow]

/-- A decimal is determined by the number it stands for and its scale. -/
theorem ext_toRat {a b : Decimal} (h : a.toRat = b.toRat) (hscale : a.scale = b.scale) : a = b := by
  have hm := (mantissaAt_eq_iff a b (Nat.le_of_eq hscale) (Nat.le_refl _)).mpr h
  rw [mantissaAt_self, ← hscale, mantissaAt_self] at hm
  cases a
  cases b
  exact (mk.injEq ..).mpr ⟨hm, hscale⟩

/-- Having one value means standing for one number. -/
theorem sameValue_iff_toRat (a b : Decimal) : a.sameValue b = true ↔ a.toRat = b.toRat := by
  rw [sameValue_iff]
  exact mantissaAt_eq_iff a b (scale_le_commonScale_left a b) (scale_le_commonScale_right a b)

end Decimal
end ExactCalculator
