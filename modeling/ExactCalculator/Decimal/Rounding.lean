import ExactCalculator.Decimal.Basic

/-!
Division to a given number of places. The quotient of the magnitudes goes to the nearest whole
number and from half way to the even neighbour; the sign is put back afterwards, so a change of
sign of an operand changes only the sign of the result.
-/
namespace ExactCalculator

/-- The whole number nearest to `num / den`; of two equally near ones the even one. -/
def roundHalfEven (num den : Nat) : Nat :=
  match compare (2 * (num % den)) den with
  | .lt => num / den
  | .eq => num / den + num / den % 2
  | .gt => num / den + 1

@[simp] theorem roundHalfEven_zero (den : Nat) : roundHalfEven 0 den = 0 := by
  cases den with
  | zero => rfl
  | succ n => simp [roundHalfEven, compare, compareOfLessAndEq]

/-- The result is at most half a unit too large. -/
theorem roundHalfEven_le (num : Nat) {den : Nat} (h : 0 < den) :
    2 * (den * roundHalfEven num den) ≤ 2 * num + den := by
  have hdiv := Nat.div_add_mod num den
  have hmod := Nat.mod_lt num h
  unfold roundHalfEven
  split
  next => omega
  next heq =>
    have htie := Nat.compare_eq_eq.mp heq
    rcases Nat.mod_two_eq_zero_or_one (num / den) with hq | hq
    · rw [hq, Nat.add_zero]
      omega
    · rw [hq, Nat.mul_add]
      omega
  next hgt =>
    have := Nat.compare_eq_gt.mp hgt
    rw [Nat.mul_add]
    omega

/-- The result is at most half a unit too small. -/
theorem le_roundHalfEven (num : Nat) {den : Nat} (h : 0 < den) :
    2 * num ≤ 2 * (den * roundHalfEven num den) + den := by
  have hdiv := Nat.div_add_mod num den
  have hmod := Nat.mod_lt num h
  unfold roundHalfEven
  split
  next hlt =>
    have := Nat.compare_eq_lt.mp hlt
    omega
  next heq =>
    have htie := Nat.compare_eq_eq.mp heq
    rw [Nat.mul_add]
    omega
  next =>
    rw [Nat.mul_add]
    omega

/-- From half way the result is even. -/
theorem roundHalfEven_even {num den : Nat} (htie : 2 * (num % den) = den) :
    roundHalfEven num den % 2 = 0 := by
  rw [roundHalfEven, Nat.compare_eq_eq.mpr htie]
  simp only
  omega

namespace Decimal

/-- The quotient `a / b` at the given scale; there is none when `b` is zero. Where the sum of the
scales has a limit, see `divRoundedBelow?`. -/
def divRounded? (a b : Decimal) (scale : Nat) : Option Decimal :=
  if b.mantissa = 0 then none
  else
    let num := a.mantissa * powTen (b.scale + scale)
    let den := b.mantissa * powTen a.scale
    some ⟨num.sign * den.sign * roundHalfEven num.natAbs den.natAbs, scale⟩

/-- Only a zero divisor has no quotient. -/
@[simp] theorem divRounded?_eq_none_iff (a b : Decimal) (scale : Nat) :
    a.divRounded? b scale = none ↔ b.mantissa = 0 := by
  simp [divRounded?]

/-- A quotient has the scale that was asked for. -/
theorem scale_of_divRounded? {a b q : Decimal} {scale : Nat}
    (h : a.divRounded? b scale = some q) : q.scale = scale := by
  simp only [divRounded?, Option.ite_none_left_eq_some, Option.some.injEq] at h
  rw [← h.2]

end Decimal
end ExactCalculator
