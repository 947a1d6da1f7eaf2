import ExactCalculator.Proofs.Decimal.Numeral

/-!
Decimals written out and read back. Only literals are read as decimals, with one minus sign in front
at most, so a text is read exactly when it writes a number, and as that number (`writes_iff`). The
written form of a decimal is read as the same mantissa at the same scale (`ofSigned_render`).
-/
namespace ExactCalculator

/-- A decimal text, perhaps with a minus sign in front, and the number it writes. -/
inductive Text.Writes : Text → ℚ → Prop
  | plain {t : Text} (h : t.IsLiteral) : Writes t t.literalValue
  | negative {t : Text} (h : t.IsLiteral) : Writes ('-' :: t) (-t.literalValue)

namespace Decimal

open Text

/-- All is places behind a point, and nothing is where none stands. -/
theorem splitPlaces_eq {rest places : Text} (h : splitPlaces rest = (places, [])) :
    (rest = [] ∧ places = []) ∨ (rest = '.' :: places ∧ ∀ c ∈ places, c.isDigit = true) := by
  unfold splitPlaces at h
  split at h
  next more =>
    rw [List.span_eq_takeWhile_dropWhile, Prod.mk.injEq] at h
    obtain ⟨rfl, hdrop⟩ := h
    have hmore := List.dropWhile_eq_nil_iff.mp hdrop
    rw [List.takeWhile_eq_self_iff.mpr hmore]
    exact .inr ⟨rfl, hmore⟩
  next =>
    cases h
    exact .inl ⟨rfl, rfl⟩

/-- Only literals are read. -/
theorem isLiteral_of_ofLiteral {t : Text} {d : Decimal} (h : ofLiteral t = .ok d) :
    t.IsLiteral := by
  have ht := List.takeWhile_append_dropWhile (p := Char.isDigit) (l := t)
  have hwhole : ∀ c ∈ t.takeWhile Char.isDigit, c.isDigit = true :=
    fun c hc => List.mem_takeWhile_imp hc
  unfold ofLiteral at h
  generalize t.takeWhile Char.isDigit = whole at h ht hwhole
  generalize t.dropWhile Char.isDigit = behind at h ht
  subst ht
  cases hsplit : splitPlaces behind with
  | mk places rest =>
    rw [hsplit] at h
    cases rest with
    | cons c rest =>
      dsimp only at h
      split at h
      · cases h
      · cases h
      · next hnil => cases hnil
    | nil =>
      dsimp only at h
      split at h
      · cases h
      · next hne =>
        rw [List.isEmpty_iff] at hne
        obtain ⟨rfl, rfl⟩ | ⟨rfl, hplaces⟩ := splitPlaces_eq hsplit
        · rw [List.append_nil] at hne ⊢
          exact isLiteral_of_digits hne hwhole
        · exact isLiteral_point hne hwhole hplaces

theorem ofLiteral_eq_ok_iff {t : Text} {d : Decimal} :
    ofLiteral t = .ok d ↔ t.IsLiteral ∧ d = t.literalDecimal := by
  constructor
  · intro h
    have ht := isLiteral_of_ofLiteral h
    rw [ofLiteral_of_isLiteral ht] at h
    cases h
    exact ⟨ht, rfl⟩
  · rintro ⟨ht, rfl⟩
    exact ofLiteral_of_isLiteral ht

theorem not_isLiteral_minus (t : Text) : ¬ IsLiteral ('-' :: t) :=
  fun h => absurd (h.numeral '-' List.mem_cons_self) (by decide)

theorem ofSigned_of_isLiteral {t : Text} (h : t.IsLiteral) :
    ofSigned t = .ok t.literalDecimal := by
  unfold ofSigned
  split
  · exact absurd h (not_isLiteral_minus _)
  · exact ofLiteral_of_isLiteral h

theorem ofSigned_minus {t : Text} (h : t.IsLiteral) :
    ofSigned ('-' :: t) = .ok (-t.literalDecimal) := by
  rw [ofSigned, ofLiteral_of_isLiteral h]
  rfl

/-- What is read is a literal, or the opposite of the literal behind a minus sign. -/
theorem ofSigned_eq_ok_iff {t : Text} {d : Decimal} :
    ofSigned t = .ok d ↔ (t.IsLiteral ∧ d = t.literalDecimal) ∨
      ∃ magnitude : Text, t = '-' :: magnitude ∧ magnitude.IsLiteral ∧
        d = -magnitude.literalDecimal := by
  constructor
  · intro h
    unfold ofSigned at h
    split at h
    next magnitude =>
      cases hmagnitude : ofLiteral magnitude with
      | error reason =>
        rw [hmagnitude] at h
        cases h
      | ok m =>
        rw [hmagnitude] at h
        cases h
        obtain ⟨hliteral, rfl⟩ := ofLiteral_eq_ok_iff.mp hmagnitude
        exact .inr ⟨magnitude, rfl, hliteral, rfl⟩
    next => exact .inl (ofLiteral_eq_ok_iff.mp h)
  · rintro (⟨h, rfl⟩ | ⟨magnitude, rfl, h, rfl⟩)
    · exact ofSigned_of_isLiteral h
    · exact ofSigned_minus h

/-- A text is read exactly when it writes a number. -/
theorem writes_iff {t : Text} {q : ℚ} :
    t.Writes q ↔ ∃ d, ofSigned t = .ok d ∧ d.toRat = q := by
  constructor
  · rintro (h | h)
    · exact ⟨_, ofSigned_of_isLiteral h, toRat_literalDecimal t⟩
    · exact ⟨_, ofSigned_minus h, by rw [toRat_neg, toRat_literalDecimal]⟩
  · rintro ⟨d, hd, rfl⟩
    obtain ⟨h, rfl⟩ | ⟨magnitude, rfl, h, rfl⟩ := ofSigned_eq_ok_iff.mp hd
    · rw [toRat_literalDecimal]
      exact .plain h
    · rw [toRat_neg, toRat_literalDecimal]
      exact .negative h

theorem isDigit_of_mem_paddedDigits (d : Decimal) :
    ∀ c ∈ d.paddedDigits, c.isDigit = true := by
  intro c hc
  rw [paddedDigits, List.leftpad, List.mem_append, List.mem_replicate] at hc
  obtain ⟨-, rfl⟩ | hc := hc
  · rfl
  · exact Nat.isDigit_of_mem_toDigits (by decide) (by decide) hc

theorem scale_lt_length_paddedDigits (d : Decimal) : d.scale < d.paddedDigits.length := by
  rw [paddedDigits, List.length_leftpad]
  exact Nat.le_max_left _ _

/-- Zeros in front do not count. -/
theorem ofDigitChars_paddedDigits (d : Decimal) :
    Nat.ofDigitChars 10 d.paddedDigits 0 = d.mantissa.natAbs := by
  rw [paddedDigits, List.leftpad, Nat.ofDigitChars_append, Nat.ofDigitChars_replicate_zero,
    Nat.mul_zero, Nat.ofDigitChars_ten_toDigits]

/-- Without its sign the written form is a literal, which keeps the scale. -/
theorem renderMagnitude_writes (d : Decimal) :
    d.renderMagnitude.IsLiteral ∧
      d.renderMagnitude.literalDecimal = ⟨d.mantissa.natAbs, d.scale⟩ := by
  have hdigits := d.isDigit_of_mem_paddedDigits
  have hlength := d.scale_lt_length_paddedDigits
  have hvalue := d.ofDigitChars_paddedDigits
  have hne : d.paddedDigits ≠ [] := List.ne_nil_of_length_pos (by omega)
  unfold renderMagnitude
  dsimp only
  split
  next hscale =>
    refine ⟨isLiteral_of_digits hne hdigits, ?_⟩
    rw [literalDecimal_of_digits hdigits, hvalue, hscale]
  next hscale =>
    generalize hwhole : d.paddedDigits.length - d.scale = whole
    have htake : ∀ c ∈ d.paddedDigits.take whole, c.isDigit = true :=
      fun c hc => hdigits c (List.mem_of_mem_take hc)
    have hdrop : ∀ c ∈ d.paddedDigits.drop whole, c.isDigit = true :=
      fun c hc => hdigits c (List.mem_of_mem_drop hc)
    have hplaces : d.paddedDigits.length - whole = d.scale := by omega
    refine ⟨isLiteral_point ?_ htake hdrop, ?_⟩
    · rw [List.take_append_drop]
      exact hne
    · rw [literalDecimal_point htake hdrop, List.take_append_drop, hvalue, List.length_drop,
        hplaces]

/-- Without a sign the written form is a literal of the decimal itself. -/
theorem render_of_nonneg {d : Decimal} (h : 0 ≤ d.toRat) :
    d.render = d.renderMagnitude ∧ d.renderMagnitude.literalDecimal = d := by
  have hsign : ¬ d.mantissa < 0 := by rwa [← toRat_neg_iff, not_lt]
  have habs : (d.mantissa.natAbs : Int) = d.mantissa := by omega
  refine ⟨if_neg hsign, ?_⟩
  rw [(renderMagnitude_writes d).2, habs]

/-- Behind its sign the written form is a literal of the opposite. -/
theorem render_of_neg {d : Decimal} (h : d.toRat < 0) :
    d.render = '-' :: d.renderMagnitude ∧ -d.renderMagnitude.literalDecimal = d := by
  have hsign : d.mantissa < 0 := (toRat_neg_iff d).mp h
  have habs : (d.mantissa.natAbs : Int) = -d.mantissa := by omega
  refine ⟨if_pos hsign, ?_⟩
  rw [(renderMagnitude_writes d).2, habs]
  change (⟨- -d.mantissa, d.scale⟩ : Decimal) = d
  rw [neg_neg]

/-- Every decimal is read back from its written form. -/
theorem ofSigned_render (d : Decimal) : ofSigned d.render = .ok d := by
  have hliteral := d.renderMagnitude_writes.1
  obtain hsign | hsign := le_or_gt 0 d.toRat
  · obtain ⟨hrender, hvalue⟩ := render_of_nonneg hsign
    rw [hrender, ofSigned_of_isLiteral hliteral, hvalue]
  · obtain ⟨hrender, hvalue⟩ := render_of_neg hsign
    rw [hrender, ofSigned_minus hliteral, hvalue]

/-- The written form has no other characters than digits, a point and a minus sign. -/
theorem mem_render {d : Decimal} {c : Char} (h : c ∈ d.render) :
    isNumeral c = true ∨ c = '-' := by
  have hnumeral := d.renderMagnitude_writes.1.numeral
  unfold render at h
  split at h
  · obtain rfl | h := List.mem_cons.mp h
    · exact .inr rfl
    · exact .inl (hnumeral c h)
  · exact .inl (hnumeral c h)

end Decimal
end ExactCalculator
