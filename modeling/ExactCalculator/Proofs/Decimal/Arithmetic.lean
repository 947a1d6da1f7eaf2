import ExactCalculator.Limits
import ExactCalculator.Proofs.Decimal.Value

/-!
Arithmetic and order of decimals. The operations are those of the rational numbers, and the scale of
a result follows from the scales of the operands alone. A decimal is determined by its number and
its scale, so a law of the rationals holds between decimals, and not only between their numbers,
where both sides have one scale. Comparing decimals compares their numbers, so that decimals of one
value are interchangeable and the order does not see scales.

With scales in words sums and differences always exist. The scale of a product is a sum, and there
is no product where that sum is no word; the laws hold nevertheless, one side having a result
exactly when the other has (`exact_arithmetic`).
-/
namespace ExactCalculator.Decimal

/-- Mantissas at one common scale are ordered as the numbers are. -/
theorem mantissaAt_lt_iff (a b : Decimal) {scale : Nat} (ha : a.scale ≤ scale)
    (hb : b.scale ≤ scale) : a.mantissaAt scale < b.mantissaAt scale ↔ a.toRat < b.toRat := by
  have hpow : (0 : ℚ) < 10 ^ scale := by positivity
  rw [← Int.cast_lt (R := ℚ), cast_mantissaAt a ha, cast_mantissaAt b hb, mul_lt_mul_iff_left₀ hpow]

/-- Comparing decimals compares the numbers they stand for. -/
theorem compare_eq (a b : Decimal) : compare a b = compare a.toRat b.toRat := by
  have ha := scale_le_commonScale_left a b
  have hb := scale_le_commonScale_right a b
  rw [compare_def]
  obtain h | h | h := lt_trichotomy a.toRat b.toRat
  · rw [compare_lt_iff_lt.mpr h, Int.compare_eq_lt]
    exact (mantissaAt_lt_iff a b ha hb).mpr h
  · rw [compare_eq_iff_eq.mpr h, Int.compare_eq_eq]
    exact (mantissaAt_eq_iff a b ha hb).mpr h
  · rw [compare_gt_iff_gt.mpr h, Int.compare_eq_gt]
    exact (mantissaAt_lt_iff b a hb ha).mpr h

theorem lt_iff_toRat (a b : Decimal) : a < b ↔ a.toRat < b.toRat := by
  change compare a b = .lt ↔ _
  rw [compare_eq, compare_lt_iff_lt]

theorem isLE_compare_iff (a b : Decimal) : (compare a b).isLE = true ↔ a.toRat ≤ b.toRat := by
  rw [compare_eq, Ordering.isLE_iff_ne_gt, compare_gt_iff_gt, not_lt]

/-- What comes of two decimals with scales in words: the numbers they stand for are computed with
and compared, but there is no product if its scale is no word. -/
structure Exact (a b : Decimal) : Prop where
  add : ∃ c, addBelow? scaleLimit a b = some c ∧
    c.toRat = a.toRat + b.toRat ∧ c.scale = max a.scale b.scale
  sub : ∃ c, subBelow? scaleLimit a b = some c ∧
    c.toRat = a.toRat - b.toRat ∧ c.scale = max a.scale b.scale
  mul : a.scale + b.scale < scaleLimit → ∃ c, mulBelow? scaleLimit a b = some c ∧
    c.toRat = a.toRat * b.toRat ∧ c.scale = a.scale + b.scale
  overflow : scaleLimit ≤ a.scale + b.scale → mulBelow? scaleLimit a b = none
  neg : (-a).toRat = -a.toRat ∧ (-a).scale = a.scale
  /-- The exponents that comparing needs are words. -/
  align : a.mantissaBelow? scaleLimit (commonScale a b) = some (a.mantissaAt (commonScale a b)) ∧
    b.mantissaBelow? scaleLimit (commonScale a b) = some (b.mantissaAt (commonScale a b))
  compare : compare a b = compare a.toRat b.toRat
  sameValue : a.sameValue b = true ↔ a.toRat = b.toRat
  lt : a < b ↔ a.toRat < b.toRat

theorem exactness {a b : Decimal} (ha : a.scale < scaleLimit) (hb : b.scale < scaleLimit) :
    Exact a b := by
  have hcommon : commonScale a b < scaleLimit := Nat.max_lt.mpr ⟨ha, hb⟩
  exact {
    add := ⟨a + b, addBelow?_eq hcommon, toRat_add a b, scale_add a b⟩
    sub := ⟨a - b, subBelow?_eq hcommon, toRat_sub a b, scale_sub a b⟩
    mul := fun h => ⟨a * b, mulBelow?_eq h, toRat_mul a b, scale_mul a b⟩
    overflow := mulBelow?_eq_none
    neg := ⟨toRat_neg a, scale_neg a⟩
    align := ⟨mantissaBelow?_eq (scale_le_commonScale_left a b) hcommon,
      mantissaBelow?_eq (scale_le_commonScale_right a b) hcommon⟩
    compare := compare_eq a b
    sameValue := sameValue_iff_toRat a b
    lt := lt_iff_toRat a b }

/-- Operands that are the same have results that are the same, if they have results. -/
def Respects (same : Decimal → Decimal → Prop) (f : Decimal → Decimal → Option Decimal) : Prop :=
  ∀ a a' b b' c c', same a a' → same b b' → f a b = some c → f a' b' = some c' → same c c'

structure IsCongruence (same : Decimal → Decimal → Prop) : Prop where
  equivalence : Equivalence same
  add : Respects same (addBelow? scaleLimit)
  sub : Respects same (subBelow? scaleLimit)
  mul : Respects same (mulBelow? scaleLimit)

/-- An operation that computes with the numbers does not tell decimals of one value apart. -/
theorem respects_of_toRat {f : Decimal → Decimal → Option Decimal} (op : ℚ → ℚ → ℚ)
    (hf : ∀ a b c, f a b = some c → c.toRat = op a.toRat b.toRat) :
    Respects (fun a b => a.sameValue b = true) f := by
  intro a a' b b' c c' ha hb hc hc'
  rw [sameValue_iff_toRat] at ha hb ⊢
  rw [hf a b c hc, hf a' b' c' hc', ha, hb]

theorem isCongruence_sameValue : IsCongruence fun a b => a.sameValue b = true where
  equivalence := by
    simp only [sameValue_iff_toRat]
    exact ⟨fun a => rfl, Eq.symm, Eq.trans⟩
  add := by
    refine respects_of_toRat (· + ·) fun a b c hc => ?_
    rw [eq_of_alignedBelow? hc]
    exact toRat_add a b
  sub := by
    refine respects_of_toRat (· - ·) fun a b c hc => ?_
    rw [eq_of_alignedBelow? hc]
    exact toRat_sub a b
  mul := by
    refine respects_of_toRat (· * ·) fun a b c hc => ?_
    rw [mulBelow?_eq_ite, Option.ite_none_right_eq_some] at hc
    rw [← Option.some.inj hc.2]
    exact toRat_mul a b

/-- A total order of the values: only decimals of one value stand on both sides of each other. -/
structure OrdersValues (le : Decimal → Decimal → Prop) : Prop where
  total (a b : Decimal) : le a b ∨ le b a
  trans {a b c : Decimal} : le a b → le b c → le a c
  antisymm {a b : Decimal} : le a b → le b a → a.sameValue b = true

theorem ordersValues_compare : OrdersValues fun a b => (compare a b).isLE = true := by
  simp only [isLE_compare_iff]
  refine ⟨fun a b => le_total _ _, le_trans, ?_⟩
  intro a b hab hba
  rw [sameValue_iff_toRat]
  exact le_antisymm hab hba

protected theorem add_comm (a b : Decimal) : a + b = b + a := by
  refine ext_toRat ?_ ?_
  · rw [toRat_add, toRat_add, add_comm]
  · exact Nat.max_comm ..

protected theorem add_assoc (a b c : Decimal) : a + b + c = a + (b + c) := by
  refine ext_toRat ?_ ?_
  · simp only [toRat_add, add_assoc]
  · exact Nat.max_assoc ..

protected theorem mul_comm (a b : Decimal) : a * b = b * a := by
  refine ext_toRat ?_ ?_
  · rw [toRat_mul, toRat_mul, mul_comm]
  · exact Nat.add_comm ..

protected theorem mul_assoc (a b c : Decimal) : a * b * c = a * (b * c) := by
  refine ext_toRat ?_ ?_
  · simp only [toRat_mul, mul_assoc]
  · exact Nat.add_assoc ..

/-- The scale of a product with a sum is that of the sum of the products. -/
protected theorem mul_add (a b c : Decimal) : a * (b + c) = a * b + a * c := by
  refine ext_toRat ?_ ?_
  · simp only [toRat_mul, toRat_add, mul_add]
  · simp only [scale_mul, scale_add, Nat.add_max_add_left]

theorem mulBelow?_comm (limit : Nat) (a b : Decimal) :
    mulBelow? limit a b = mulBelow? limit b a := by
  rw [mulBelow?_eq_ite, mulBelow?_eq_ite, Nat.add_comm, Decimal.mul_comm]

/-- Both products of three exist exactly when the sum of all three scales is below the limit. -/
theorem mulBelow?_assoc (limit : Nat) (a b c : Decimal) :
    (do mulBelow? limit (← mulBelow? limit a b) c) =
      (do mulBelow? limit a (← mulBelow? limit b c)) := by
  have hleft : (do mulBelow? limit (← mulBelow? limit a b) c) =
      if a.scale + b.scale + c.scale < limit then some (a * b * c) else none := by
    by_cases h : a.scale + b.scale < limit
    · rw [mulBelow?_eq h]
      exact mulBelow?_eq_ite limit (a * b) c
    · rw [mulBelow?_eq_none (Nat.not_lt.mp h), if_neg (by omega)]
      rfl
  have hright : (do mulBelow? limit a (← mulBelow? limit b c)) =
      if a.scale + b.scale + c.scale < limit then some (a * (b * c)) else none := by
    rw [Nat.add_assoc]
    by_cases h : b.scale + c.scale < limit
    · rw [mulBelow?_eq h]
      exact mulBelow?_eq_ite limit a (b * c)
    · rw [mulBelow?_eq_none (Nat.not_lt.mp h), if_neg (by omega)]
      rfl
  rw [hleft, hright, Decimal.mul_assoc]

theorem addBelow?_comm {limit : Nat} {a b : Decimal} (ha : a.scale < limit) (hb : b.scale < limit) :
    addBelow? limit a b = addBelow? limit b a := by
  rw [addBelow?_eq (Nat.max_lt.mpr ⟨ha, hb⟩), addBelow?_eq (Nat.max_lt.mpr ⟨hb, ha⟩),
    Decimal.add_comm]

theorem addBelow?_assoc {limit : Nat} {a b c : Decimal} (ha : a.scale < limit)
    (hb : b.scale < limit) (hc : c.scale < limit) :
    (do addBelow? limit (← addBelow? limit a b) c) =
      (do addBelow? limit a (← addBelow? limit b c)) := by
  have hab : (a + b).scale < limit := Nat.max_lt.mpr ⟨ha, hb⟩
  have hbc : (b + c).scale < limit := Nat.max_lt.mpr ⟨hb, hc⟩
  rw [addBelow?_eq (Nat.max_lt.mpr ⟨ha, hb⟩), addBelow?_eq (Nat.max_lt.mpr ⟨hb, hc⟩)]
  simp only [Option.bind_eq_bind, Option.bind_some]
  rw [addBelow?_eq (Nat.max_lt.mpr ⟨hab, hc⟩), addBelow?_eq (Nat.max_lt.mpr ⟨ha, hbc⟩),
    Decimal.add_assoc]

/-- A factor has a product with a sum exactly when it has one with each of the summands. -/
theorem mulBelow?_addBelow? {limit : Nat} (a : Decimal) {b c : Decimal} (hb : b.scale < limit)
    (hc : c.scale < limit) :
    (do mulBelow? limit a (← addBelow? limit b c)) =
      (do addBelow? limit (← mulBelow? limit a b) (← mulBelow? limit a c)) := by
  rw [addBelow?_eq (Nat.max_lt.mpr ⟨hb, hc⟩)]
  simp only [Option.bind_eq_bind, Option.bind_some]
  by_cases hab : a.scale + b.scale < limit
  · by_cases hac : a.scale + c.scale < limit
    · have hsum : a.scale + (b + c).scale < limit := by
        rw [scale_add]
        omega
      rw [mulBelow?_eq hab, mulBelow?_eq hac, mulBelow?_eq hsum, Decimal.mul_add]
      exact (addBelow?_eq (Nat.max_lt.mpr ⟨hab, hac⟩)).symm
    · rw [mulBelow?_eq_none (Nat.not_lt.mp hac), mulBelow?_eq_none]
      · simp
      · rw [scale_add]
        omega
  · rw [mulBelow?_eq_none (Nat.not_lt.mp hab), mulBelow?_eq_none]
    · rfl
    · rw [scale_add]
      omega

/-- The laws of sums and products, with the same mantissa and the same scale on both sides, and with
a result on one side whenever there is one on the other. -/
structure Laws (a b c : Decimal) : Prop where
  add_comm : addBelow? scaleLimit a b = addBelow? scaleLimit b a
  add_assoc : (do addBelow? scaleLimit (← addBelow? scaleLimit a b) c) =
    (do addBelow? scaleLimit a (← addBelow? scaleLimit b c))
  mul_comm : mulBelow? scaleLimit a b = mulBelow? scaleLimit b a
  mul_assoc : (do mulBelow? scaleLimit (← mulBelow? scaleLimit a b) c) =
    (do mulBelow? scaleLimit a (← mulBelow? scaleLimit b c))
  mul_add : (do mulBelow? scaleLimit a (← addBelow? scaleLimit b c)) =
    (do addBelow? scaleLimit (← mulBelow? scaleLimit a b) (← mulBelow? scaleLimit a c))

/-- With scales in words, sums, differences and negations are exact, and comparing is the order of
the numbers. A product is exact, and there is one exactly when the sum of the scales is a word.
Hence the laws of sums and products hold, decimals of one value are interchangeable, and their order
is total and transitive. -/
theorem exact_arithmetic (a b c : Decimal) (ha : a.scale < scaleLimit) (hb : b.scale < scaleLimit)
    (hc : c.scale < scaleLimit) :
    Exact a b ∧ Laws a b c ∧
    IsCongruence (fun a b : Decimal => a.sameValue b = true) ∧
    OrdersValues (fun a b : Decimal => (compare a b).isLE = true) := by
  refine ⟨exactness ha hb, ?_, isCongruence_sameValue, ordersValues_compare⟩
  exact ⟨addBelow?_comm ha hb, addBelow?_assoc ha hb hc, mulBelow?_comm _ a b,
    mulBelow?_assoc _ a b c, mulBelow?_addBelow? a hb hc⟩

/-- `7.0 * 0.50` is 3.5 with three places and has the value of `7 * 0.5`, and `0.09` stands before
`0.10` by way of `0.1`. -/
theorem exact_arithmetic_instances :
    (∃ p, mulBelow? scaleLimit ⟨70, 1⟩ ⟨50, 2⟩ = some p ∧ p.toRat = 7 / 2 ∧ p.scale = 3) ∧
    (⟨3500, 3⟩ : Decimal).sameValue ⟨35, 1⟩ = true ∧
    (compare (⟨9, 2⟩ : Decimal) ⟨10, 2⟩).isLE = true := by
  obtain ⟨hexact, -, hsame, horder⟩ :=
    exact_arithmetic ⟨70, 1⟩ ⟨50, 2⟩ ⟨1, 1⟩ (by decide) (by decide) (by decide)
  refine ⟨?_, ?_, ?_⟩
  · obtain ⟨p, hp, hnumber, hscale⟩ := hexact.mul (by decide)
    exact ⟨p, hp, hnumber.trans (by norm_num [toRat]), hscale⟩
  · exact hsame.mul ⟨70, 1⟩ ⟨7, 0⟩ ⟨50, 2⟩ ⟨5, 1⟩ _ _ (by decide) (by decide) rfl rfl
  · have hbelow : (compare (⟨9, 2⟩ : Decimal) ⟨1, 1⟩).isLE = true := by decide
    have hequal : (compare (⟨1, 1⟩ : Decimal) ⟨10, 2⟩).isLE = true := by decide
    exact horder.trans hbelow hequal

/-- The scale `2 ^ 31` is a word and its double is none, so the smallest positive decimal of this
scale has no square. -/
theorem no_product_of_large_scales :
    (2 ^ 31 : Nat) < scaleLimit ∧ mulBelow? scaleLimit ⟨1, 2 ^ 31⟩ ⟨1, 2 ^ 31⟩ = none := by
  decide

end ExactCalculator.Decimal
