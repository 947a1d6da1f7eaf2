import ExactCalculator.Decimal.Normal
import ExactCalculator.Operator

/-!
Decimal arithmetic within a limit. Mantissas grow as they need to, but scales and exponents are kept
in machine words. The functions here compute as the exact ones do and give nothing as soon as one of
these numbers reaches the limit or would be negative: the machine stops there, or goes on with
whatever is left of the number if it does not check its sums. Where nothing reaches the limit they
agree with the exact functions (`Operator.applyBelow?_eq`, `Decimal.normalizedBelow?_eq`).
-/
namespace ExactCalculator

/-- The limit of a word of 32 bits, which is what a scale is kept in. -/
def scaleLimit : Nat := Nat.pow 2 32

/-- A number, unless it reaches the limit. -/
def below? (limit n : Nat) : Option Nat := if n < limit then some n else none

/-- A difference, unless it would be negative. -/
def difference? (m n : Nat) : Option Nat := if n ≤ m then some (m - n) else none

def powTenBelow? (limit k : Nat) : Option Nat := (below? limit k).map powTen

theorem below?_of_lt {limit n : Nat} (h : n < limit) : below? limit n = some n := if_pos h

theorem difference?_of_le {m n : Nat} (h : n ≤ m) : difference? m n = some (m - n) := if_pos h

theorem powTenBelow?_of_lt {limit k : Nat} (h : k < limit) :
    powTenBelow? limit k = some (powTen k) := by
  rw [powTenBelow?, below?_of_lt h, Option.map_some]

namespace Decimal

/-- The mantissa at another scale; the exponent is a difference of the scales. -/
def mantissaBelow? (limit : Nat) (d : Decimal) (scale : Nat) : Option Int := do
  let surplus ← difference? scale d.scale
  let power ← powTenBelow? limit surplus
  return d.mantissa * power

/-- Both mantissas at the common scale, put together. -/
def alignedBelow? (limit : Nat) (combine : Int → Int → Int) (a b : Decimal) : Option Decimal := do
  let x ← a.mantissaBelow? limit (commonScale a b)
  let y ← b.mantissaBelow? limit (commonScale a b)
  return ⟨combine x y, commonScale a b⟩

def addBelow? (limit : Nat) (a b : Decimal) : Option Decimal := alignedBelow? limit (· + ·) a b

def subBelow? (limit : Nat) (a b : Decimal) : Option Decimal := alignedBelow? limit (· - ·) a b

/-- The product; its scale is the sum of the scales. -/
def mulBelow? (limit : Nat) (a b : Decimal) : Option Decimal := do
  let scale ← below? limit (a.scale + b.scale)
  return ⟨a.mantissa * b.mantissa, scale⟩

/-- The quotient; the scale asked for is added to that of the divisor. -/
def divRoundedBelow? (limit : Nat) (a b : Decimal) (scale : Nat) : Option (Option Decimal) :=
  if b.mantissa = 0 then some none
  else do
    let exponent ← below? limit (b.scale + scale)
    let up ← powTenBelow? limit exponent
    let down ← powTenBelow? limit a.scale
    let num := a.mantissa * up
    let den := b.mantissa * down
    return some ⟨num.sign * den.sign * roundHalfEven num.natAbs den.natAbs, scale⟩

/-- The normal form; the zeros counted are at most as many as the places. -/
def normalizedBelow? (limit : Nat) (d : Decimal) : Option Decimal :=
  if d.mantissa = 0 then some zero
  else do
    let surplus ← below? limit (min (trailingZeros d.mantissa.natAbs) d.scale)
    let power ← powTenBelow? limit surplus
    let scale ← difference? d.scale surplus
    return ⟨d.mantissa / power, scale⟩

variable {limit : Nat} {a b d : Decimal} {scale : Nat}

theorem mantissaBelow?_eq_ite (limit : Nat) (d : Decimal) (scale : Nat) :
    d.mantissaBelow? limit scale =
      if d.scale ≤ scale ∧ scale - d.scale < limit then some (d.mantissaAt scale) else none := by
  by_cases hscale : d.scale ≤ scale
  · by_cases hsurplus : scale - d.scale < limit
    · simp [mantissaBelow?, mantissaAt, difference?, powTenBelow?, below?, hscale, hsurplus]
    · simp [mantissaBelow?, difference?, powTenBelow?, below?, hscale, hsurplus]
  · simp [mantissaBelow?, difference?, hscale]

theorem mantissaBelow?_eq (hscale : d.scale ≤ scale) (hlimit : scale < limit) :
    d.mantissaBelow? limit scale = some (d.mantissaAt scale) := by
  rw [mantissaBelow?_eq_ite, if_pos ⟨hscale, by omega⟩]

theorem eq_mantissaAt_of_mantissaBelow? {m : Int} (h : d.mantissaBelow? limit scale = some m) :
    m = d.mantissaAt scale := by
  rw [mantissaBelow?_eq_ite, Option.ite_none_right_eq_some] at h
  exact (Option.some.inj h.2).symm

theorem alignedBelow?_eq (combine : Int → Int → Int) (hlimit : commonScale a b < limit) :
    alignedBelow? limit combine a b =
      some ⟨combine (a.mantissaAt (commonScale a b)) (b.mantissaAt (commonScale a b)),
        commonScale a b⟩ := by
  have hleft : a.scale ≤ commonScale a b := Nat.le_max_left _ _
  have hright : b.scale ≤ commonScale a b := Nat.le_max_right _ _
  simp [alignedBelow?, mantissaBelow?_eq hleft hlimit, mantissaBelow?_eq hright hlimit]

theorem addBelow?_eq (hlimit : commonScale a b < limit) : addBelow? limit a b = some (a + b) :=
  alignedBelow?_eq (· + ·) hlimit

theorem subBelow?_eq (hlimit : commonScale a b < limit) : subBelow? limit a b = some (a - b) :=
  alignedBelow?_eq (· - ·) hlimit

/-- Whatever stays below the limit is exact. -/
theorem eq_of_alignedBelow? {combine : Int → Int → Int} {c : Decimal}
    (h : alignedBelow? limit combine a b = some c) :
    c = ⟨combine (a.mantissaAt (commonScale a b)) (b.mantissaAt (commonScale a b)),
      commonScale a b⟩ := by
  simp only [alignedBelow?, Option.bind_eq_bind, Option.bind_eq_some_iff] at h
  obtain ⟨x, hx, y, hy, hc⟩ := h
  rw [← eq_mantissaAt_of_mantissaBelow? hx, ← eq_mantissaAt_of_mantissaBelow? hy]
  exact (Option.some.inj hc).symm

/-- There is a product as long as the sum of the scales is below the limit. -/
theorem mulBelow?_eq_ite (limit : Nat) (a b : Decimal) :
    mulBelow? limit a b = if a.scale + b.scale < limit then some (a * b) else none := by
  unfold mulBelow? below?
  split <;> rfl

theorem mulBelow?_eq (hlimit : a.scale + b.scale < limit) : mulBelow? limit a b = some (a * b) := by
  rw [mulBelow?_eq_ite, if_pos hlimit]

theorem mulBelow?_eq_none (hlimit : limit ≤ a.scale + b.scale) : mulBelow? limit a b = none := by
  rw [mulBelow?_eq_ite, if_neg (Nat.not_lt.mpr hlimit)]

/-- A zero divisor is noticed before any exponent is computed. -/
theorem divRoundedBelow?_eq_ite (limit : Nat) (a b : Decimal) (scale : Nat) :
    divRoundedBelow? limit a b scale =
      if b.mantissa = 0 ∨ b.scale + scale < limit ∧ a.scale < limit then
        some (a.divRounded? b scale)
      else none := by
  by_cases hzero : b.mantissa = 0
  · simp [divRoundedBelow?, divRounded?, hzero]
  · by_cases hup : b.scale + scale < limit
    · by_cases hdown : a.scale < limit
      · simp [divRoundedBelow?, divRounded?, hzero, hup, hdown, below?, powTenBelow?]
      · simp [divRoundedBelow?, hzero, hup, hdown, below?, powTenBelow?]
    · simp [divRoundedBelow?, hzero, hup, below?]

theorem divRoundedBelow?_eq (hlimit : a.scale + b.scale + scale < limit) :
    divRoundedBelow? limit a b scale = some (a.divRounded? b scale) := by
  rw [divRoundedBelow?_eq_ite, if_pos (Or.inr (by omega))]

theorem normalizedBelow?_eq (hlimit : d.scale < limit) :
    normalizedBelow? limit d = some d.normalized := by
  by_cases hzero : d.mantissa = 0
  · simp [normalizedBelow?, normalized, hzero]
  · have hsurplus : min (trailingZeros d.mantissa.natAbs) d.scale ≤ d.scale := Nat.min_le_right _ _
    have hcount := Nat.lt_of_le_of_lt hsurplus hlimit
    rw [normalizedBelow?, normalized, if_neg hzero, if_neg hzero, below?_of_lt hcount]
    simp only [Option.bind_eq_bind, Option.bind_some, powTenBelow?_of_lt hcount,
      difference?_of_le hsurplus]
    rfl

end Decimal

def Operator.applyBelow? (limit : Nat) (op : Operator) (a b : Decimal) :
    Option (Except ArithmeticError Decimal) :=
  match op with
  | .plus => (Decimal.addBelow? limit a b).map .ok
  | .minus => (Decimal.subBelow? limit a b).map .ok
  | .star => (Decimal.mulBelow? limit a b).map .ok
  | .slash => (Decimal.divRoundedBelow? limit a b divisionScale).map fun
    | some q => .ok q
    | none => .error .divisionByZero

/-- An operator stays below the limit if both scales and the places of a quotient together do. -/
theorem Operator.applyBelow?_eq {limit : Nat} {a b : Decimal}
    (hlimit : a.scale + b.scale + divisionScale < limit) (op : Operator) :
    op.applyBelow? limit a b = some (op.apply a b) := by
  have hcommon : Decimal.commonScale a b < limit := by
    unfold Decimal.commonScale
    omega
  cases op with
  | plus =>
    rw [applyBelow?, Decimal.addBelow?_eq hcommon]
    rfl
  | minus =>
    rw [applyBelow?, Decimal.subBelow?_eq hcommon]
    rfl
  | star =>
    rw [applyBelow?, Decimal.mulBelow?_eq (by omega)]
    rfl
  | slash =>
    rw [applyBelow?, Decimal.divRoundedBelow?_eq hlimit]
    rfl

/-- A product of scale 8 is not below 8. -/
example : Operator.star.applyBelow? 8 ⟨1, 4⟩ ⟨1, 4⟩ = none := rfl

end ExactCalculator
