import ExactCalculator.Decimal.Basic

/-!
The normal form of a decimal: zeros at the end of its places are removed, zeros of its whole part
stay. A value has one normal form, and it has the smallest scale at which the value can be written.
-/
namespace ExactCalculator

def trailingZeros (n : Nat) : Nat := ((Nat.toDigits 10 n).reverse.takeWhile (· == '0')).length

namespace Decimal

/-- The same value without zeros at the end of its places. -/
def normalized (d : Decimal) : Decimal :=
  if d.mantissa = 0 then zero
  else
    let surplus := min (trailingZeros d.mantissa.natAbs) d.scale
    ⟨d.mantissa / powTen surplus, d.scale - surplus⟩

theorem normalized_of_mantissa_eq_zero {d : Decimal} (h : d.mantissa = 0) :
    d.normalized = zero := by
  simp [normalized, h]

end Decimal
end ExactCalculator
