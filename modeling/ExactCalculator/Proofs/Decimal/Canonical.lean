import ExactCalculator.Proofs.Decimal.NormalForm
import ExactCalculator.Proofs.Decimal.WrittenForm

/-!
Normalizing as it is seen in the written form. The zeros at the end of the places are removed all at
once, and the result is the one that is reached by removing them one by one
(`normalized_eq_dropZeros`). What is written of a normal form is what was written before without
these zeros, so no digit in front of the point goes (`render_normalized`). Hence two decimals have
one value exactly when their normal forms are written alike (`normalized_canonical`).
-/
namespace ExactCalculator

open Text

namespace WrittenForm

def withZeros (w : WrittenForm) (zeros : Nat) : WrittenForm where
  negative := w.negative
  whole := w.whole
  places := w.places ++ List.replicate zeros '0'
  whole_ne_nil := w.whole_ne_nil
  isDigit := by
    rw [← List.append_assoc, List.forall_mem_append]
    refine ⟨w.isDigit, fun c hc => ?_⟩
    rw [List.eq_of_mem_replicate hc]
    rfl
  no_leading_zero := w.no_leading_zero
  exists_ne_zero hsign := by
    obtain ⟨c, hc, hne⟩ := w.exists_ne_zero hsign
    rw [← List.append_assoc]
    exact ⟨c, List.mem_append_left _ hc, hne⟩

theorem magnitude_withZeros (w : WrittenForm) (zeros : Nat) :
    (w.withZeros zeros).magnitude = 10 ^ zeros * w.magnitude := by
  rw [magnitude, withZeros, ← List.append_assoc, Nat.ofDigitChars_append,
    Nat.ofDigitChars_replicate_zero]
  rfl

theorem decimal_withZeros (w : WrittenForm) (zeros : Nat) :
    (w.withZeros zeros).decimal =
      ⟨w.decimal.mantissa * 10 ^ zeros, w.decimal.scale + zeros⟩ := by
  have hplaces : (w.withZeros zeros).places.length = w.places.length + zeros := by
    rw [withZeros, List.length_append, List.length_replicate]
  have hsign : (w.withZeros zeros).negative = w.negative := rfl
  rw [decimal, decimal, hplaces, magnitude_withZeros, hsign]
  push_cast
  cases w.negative with
  | true => simp [mul_comm]
  | false => simp [mul_comm]

end WrittenForm

namespace Decimal

def dropZero? : Decimal → Option Decimal
  | ⟨_, 0⟩ => none
  | ⟨mantissa, scale + 1⟩ => if 10 ∣ mantissa then some ⟨mantissa / 10, scale⟩ else none

theorem dropZero?_eq_none_iff (d : Decimal) : d.dropZero? = none ↔ d.IsNormal := by
  obtain ⟨mantissa, scale⟩ := d
  cases scale with
  | zero => simp [dropZero?, IsNormal]
  | succ scale => simp [dropZero?, IsNormal]

theorem eq_of_dropZero? {d e : Decimal} (h : d.dropZero? = some e) :
    d = ⟨e.mantissa * 10, e.scale + 1⟩ := by
  obtain ⟨mantissa, scale⟩ := d
  cases scale with
  | zero => cases h
  | succ scale =>
    rw [dropZero?, Option.ite_none_right_eq_some, Option.some.injEq] at h
    obtain ⟨hdvd, rfl⟩ := h
    rw [Int.ediv_mul_cancel hdvd]

/-- The zeros at the end of the places removed one by one, as long as there is one. -/
def dropZeros (d : Decimal) : Decimal :=
  match _h : d.dropZero? with
  | none => d
  | some e => e.dropZeros
termination_by d.scale
decreasing_by
  rw [eq_of_dropZero? _h]
  exact Nat.lt_succ_self _

theorem toRat_dropZeros (d : Decimal) : d.dropZeros.toRat = d.toRat := by
  fun_induction dropZeros d with
  | case1 d h => rfl
  | case2 d e h ih =>
    rw [ih, eq_of_dropZero? h]
    exact (toRat_mk_add e.mantissa e.scale 1).symm

theorem isNormal_dropZeros (d : Decimal) : d.dropZeros.IsNormal := by
  fun_induction dropZeros d with
  | case1 d h => exact (dropZero?_eq_none_iff d).mp h
  | case2 d e h ih => exact ih

/-- Counting the zeros and dividing once does what removing them one by one does. -/
theorem normalized_eq_dropZeros (d : Decimal) : d.normalized = d.dropZeros :=
  eq_of_toRat_eq (isNormal_normalized d) (isNormal_dropZeros d)
    ((toRat_normalized d).trans (toRat_dropZeros d).symm)

/-- A decimal is written as its normal form is, with some more zeros at the end of the places. -/
theorem render_normalized (d : Decimal) :
    ∃ (w : WrittenForm) (zeros : Nat),
      d.normalized.render = w.text ∧ d.render = (w.withZeros zeros).text := by
  obtain ⟨w, -, hw⟩ := exists_writtenForm d.normalized.ofSigned_render
  obtain ⟨surplus, hd⟩ := d.exists_surplus
  refine ⟨w, surplus, ?_, ?_⟩
  · rw [← w.render_decimal, hw]
  · rw [← (w.withZeros surplus).render_decimal, w.decimal_withZeros, hw, ← hd]

/-- What makes a decimal the canonical one among all that stand for the number of another. -/
structure IsCanonicalOf (n d : Decimal) : Prop where
  value : n.toRat = d.toRat
  normal : n.IsNormal
  least : ∀ e : Decimal, e.toRat = d.toRat → n.scale ≤ e.scale
  dropped : n = d.dropZeros
  /-- The digits in front of the point are kept, and of the places only zeros at the end go. -/
  written : ∃ (w : WrittenForm) (zeros : Nat),
    n.render = w.text ∧ d.render = (w.withZeros zeros).text
  fixed : n.normalized = n

/-- Normalizing gives the canonical decimal of a number. So two decimals have one value exactly when
their normal forms have the same mantissa and the same scale, which is when these are written alike.
-/
theorem normalized_canonical :
    (∀ d : Decimal, d.normalized.IsCanonicalOf d) ∧
    ∀ a b : Decimal,
      (a.sameValue b = true ↔ a.normalized = b.normalized) ∧
      (a.normalized = b.normalized ↔ a.normalized.render = b.normalized.render) := by
  constructor
  · intro d
    exact {
      value := toRat_normalized d
      normal := isNormal_normalized d
      least := fun e he =>
        scale_le_of_toRat_eq (isNormal_normalized d) (he.trans (toRat_normalized d).symm)
      dropped := normalized_eq_dropZeros d
      written := render_normalized d
      fixed := normalized_normalized d }
  · intro a b
    refine ⟨?_, render_injective.eq_iff.symm⟩
    rw [sameValue_iff_toRat, normalized_eq_iff]

/-- The normal form of `1200.00` has at most the one place of `1200.0`, and `7.0` and `7` have one
normal form. -/
theorem normalized_canonical_instances :
    (Decimal.mk 120000 2).normalized.scale ≤ 1 ∧
    (Decimal.mk 70 1).normalized = (Decimal.mk 7 0).normalized := by
  obtain ⟨hcanonical, hequal⟩ := normalized_canonical
  exact ⟨(hcanonical ⟨120000, 2⟩).least ⟨12000, 1⟩ (by norm_num [toRat]),
    (hequal ⟨70, 1⟩ ⟨7, 0⟩).1.mp (by decide)⟩

end Decimal
end ExactCalculator
