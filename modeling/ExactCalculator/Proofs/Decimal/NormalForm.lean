import ExactCalculator.Decimal.Normal
import ExactCalculator.Proofs.Decimal.Value

/-!
Normal forms are canonical. Counting the zeros at the end of the digits of a mantissa finds the
largest power of ten that divides it, so normalizing keeps the number and leaves no zero that could
go; and of all decimals that stand for one number just one is normal. Hence two decimals have the
same normal form exactly when they stand for one number (`normalized_eq_iff`).
-/
namespace ExactCalculator

/-- The last digit decides whether there is a zero at the end. -/
theorem trailingZeros_eq (n : Nat) :
    trailingZeros n =
      if n % 10 = 0 then if n < 10 then 1 else trailingZeros (n / 10) + 1 else 0 := by
  by_cases hn : n < 10
  · rw [trailingZeros, Nat.toDigits_of_lt_base hn, Nat.mod_eq_of_lt hn]
    by_cases h : n = 0 <;> simp [h]
  · rw [trailingZeros, Nat.toDigits_of_base_le (by decide) (by omega)]
    by_cases h : n % 10 = 0 <;> simp [trailingZeros, h, hn]

/-- A power of ten divides a number exactly when so many zeros end its digits. -/
theorem pow_dvd_iff_le_trailingZeros {n : Nat} (hn : n ≠ 0) (k : Nat) :
    10 ^ k ∣ n ↔ k ≤ trailingZeros n := by
  induction k generalizing n with
  | zero => simp
  | succ k ih =>
    rw [trailingZeros_eq]
    by_cases h : n % 10 = 0
    · obtain ⟨m, rfl⟩ := Nat.dvd_of_mod_eq_zero h
      have hm : m ≠ 0 := by omega
      rw [if_pos h, if_neg (by omega), Nat.mul_div_cancel_left m (by decide),
        Nat.add_le_add_iff_right, ← ih hm, pow_succ', Nat.mul_dvd_mul_iff_left (by decide)]
    · have hnot : ¬ 10 ^ (k + 1) ∣ n := fun hd =>
        h (Nat.mod_eq_zero_of_dvd (dvd_trans (dvd_pow_self 10 (Nat.succ_ne_zero k)) hd))
      simp [h, hnot]

namespace Decimal

/-- No zero stands at the end of the places. -/
def IsNormal (d : Decimal) : Prop := d.scale = 0 ∨ ¬ (10 : Int) ∣ d.mantissa

instance (d : Decimal) : Decidable d.IsNormal := inferInstanceAs (Decidable (_ ∨ _))

theorem pow_dvd_mantissa {d : Decimal} (h : d.mantissa ≠ 0) (k : Nat) :
    (10 : Int) ^ k ∣ d.mantissa ↔ k ≤ trailingZeros d.mantissa.natAbs := by
  rw [← pow_dvd_iff_le_trailingZeros (Int.natAbs_ne_zero.mpr h), ← Int.natCast_dvd]
  push_cast
  rfl

/-- Normalizing takes away a power of ten that divides the mantissa. -/
theorem normalized_eq {d : Decimal} (h : d.mantissa ≠ 0) :
    ∃ m surplus, d.mantissa = m * 10 ^ surplus ∧ surplus ≤ d.scale ∧
      d.normalized = ⟨m, d.scale - surplus⟩ ∧ (surplus < d.scale → ¬ (10 : Int) ∣ m) := by
  let surplus := min (trailingZeros d.mantissa.natAbs) d.scale
  obtain ⟨m, hm⟩ := (pow_dvd_mantissa h surplus).mpr (Nat.min_le_left _ _)
  have hpow : (10 : Int) ^ surplus ≠ 0 := by positivity
  refine ⟨m, surplus, by rw [hm, mul_comm], Nat.min_le_right _ _, ?_, ?_⟩
  · have hcast : ((powTen surplus : Nat) : Int) = 10 ^ surplus := by simp [powTen]
    rw [normalized, if_neg h]
    change (⟨d.mantissa / (powTen surplus : Nat), d.scale - surplus⟩ : Decimal) = _
    rw [hcast, hm, Int.mul_ediv_cancel_left _ hpow]
  · rintro hlt ⟨q, rfl⟩
    have hmore : surplus + 1 ≤ trailingZeros d.mantissa.natAbs := by
      rw [← pow_dvd_mantissa h]
      exact ⟨q, by rw [hm, pow_succ, mul_assoc]⟩
    have : surplus = min (trailingZeros d.mantissa.natAbs) d.scale := rfl
    omega

/-- A decimal is its normal form with some more zeros at the end of the places. -/
theorem exists_surplus (d : Decimal) :
    ∃ surplus, d = ⟨d.normalized.mantissa * 10 ^ surplus, d.normalized.scale + surplus⟩ := by
  obtain ⟨mantissa, scale⟩ := d
  by_cases h : mantissa = 0
  · refine ⟨scale, ?_⟩
    rw [normalized_of_mantissa_eq_zero h, h]
    simp [zero, ofInt]
  · obtain ⟨m, surplus, hm, hle, hd, -⟩ := normalized_eq (d := ⟨mantissa, scale⟩) h
    refine ⟨surplus, ?_⟩
    rw [hd, mk.injEq]
    exact ⟨hm, (Nat.sub_add_cancel hle).symm⟩

@[simp] theorem toRat_normalized (d : Decimal) : d.normalized.toRat = d.toRat := by
  obtain ⟨surplus, hd⟩ := d.exists_surplus
  exact ((congrArg toRat hd).trans (toRat_mk_add ..)).symm

theorem isNormal_normalized (d : Decimal) : d.normalized.IsNormal := by
  by_cases h : d.mantissa = 0
  · rw [normalized_of_mantissa_eq_zero h]
    exact .inl rfl
  · obtain ⟨m, surplus, -, hle, hd, hlast⟩ := normalized_eq h
    rw [hd]
    by_cases hlt : surplus < d.scale
    · exact .inr (hlast hlt)
    · exact .inl (by change d.scale - surplus = 0; omega)

/-- At the smaller scale there is no room for the digits of a normal form. -/
theorem scale_le_of_toRat_eq {a b : Decimal} (hb : b.IsNormal) (h : a.toRat = b.toRat) :
    b.scale ≤ a.scale := by
  by_contra hlt
  have hm := (mantissaAt_eq_iff a b (by omega) (Nat.le_refl _)).mpr h
  obtain ⟨more, hmore⟩ := Nat.exists_eq_add_of_lt (Nat.lt_of_not_le hlt)
  rw [mantissaAt_self, mantissaAt, show b.scale - a.scale = more + 1 by omega, powTen_succ] at hm
  rcases hb with hzero | hlast
  · omega
  · exact hlast ⟨a.mantissa * powTen more, by rw [← hm]; push_cast; ring⟩

/-- One number has one normal form. -/
theorem eq_of_toRat_eq {a b : Decimal} (ha : a.IsNormal) (hb : b.IsNormal)
    (h : a.toRat = b.toRat) : a = b :=
  ext_toRat h (Nat.le_antisymm (scale_le_of_toRat_eq ha h.symm) (scale_le_of_toRat_eq hb h))

theorem normalized_eq_iff (a b : Decimal) : a.normalized = b.normalized ↔ a.toRat = b.toRat := by
  constructor
  · intro h
    rw [← toRat_normalized a, h, toRat_normalized]
  · intro h
    exact eq_of_toRat_eq (isNormal_normalized a) (isNormal_normalized b) (by simpa using h)

theorem normalized_normalized (d : Decimal) : d.normalized.normalized = d.normalized := by
  rw [normalized_eq_iff, toRat_normalized]

end Decimal
end ExactCalculator
