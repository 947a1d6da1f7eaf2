import ExactCalculator.Decimal.Literal
import ExactCalculator.Lexeme
import ExactCalculator.Proofs.Decimal.Value
import Mathlib.Data.List.TakeDrop
import Mathlib.Data.List.TakeWhile

/-!
Literals and their numbers. A literal is made of ASCII digits and at most one point; its number is
the whole number that all its digits write, divided by ten once for each digit behind the point.
Reading a literal gives a decimal that stands for this number (`ofLiteral_of_isLiteral`,
`toRat_literalDecimal`).
-/
namespace ExactCalculator.Text

/-- At least one digit and at most one point, and nothing else. -/
structure IsLiteral (t : Text) : Prop where
  numeral : ∀ c ∈ t, isNumeral c = true
  digit : ∃ c ∈ t, c.isDigit = true
  point : t.count '.' ≤ 1

instance (t : Text) : Decidable t.IsLiteral :=
  decidable_of_iff (t.all isNumeral = true ∧ t.any Char.isDigit = true ∧ t.count '.' ≤ 1)
    ⟨fun h => ⟨List.all_eq_true.mp h.1, List.any_eq_true.mp h.2.1, h.2.2⟩,
      fun h => ⟨List.all_eq_true.mpr h.1, List.any_eq_true.mpr h.2, h.3⟩⟩

/-- What stands in front of the first point. -/
def whole (t : Text) : Text := t.takeWhile (· != '.')

/-- What stands behind the first point. -/
def places (t : Text) : Text := (t.dropWhile (· != '.')).drop 1

def literalValue (t : Text) : ℚ :=
  Nat.ofDigitChars 10 (t.filter Char.isDigit) 0 / 10 ^ t.places.length

/-- The decimal that a literal writes: all its digits, and as many places as it has. -/
def literalDecimal (t : Text) : Decimal :=
  ⟨Nat.ofDigitChars 10 (t.filter Char.isDigit) 0, t.places.length⟩

@[simp] theorem toRat_literalDecimal (t : Text) : t.literalDecimal.toRat = t.literalValue := by
  simp [Decimal.toRat, literalDecimal, literalValue]

theorem not_point_of_isDigit {c : Char} (h : c.isDigit = true) : (c != '.') = true := by
  rw [bne_iff_ne]
  rintro rfl
  exact absurd h (by decide)

/-- The parts of digits with no point among them. -/
theorem parts_of_digits {t : Text} (h : ∀ c ∈ t, c.isDigit = true) :
    t.whole = t ∧ t.places = [] := by
  have hpoint : ∀ c ∈ t, (c != '.') = true := fun c hc => not_point_of_isDigit (h c hc)
  refine ⟨List.takeWhile_eq_self_iff.mpr hpoint, ?_⟩
  rw [places, List.dropWhile_eq_nil_iff.mpr hpoint]
  rfl

/-- The parts of digits with a point behind them. -/
theorem parts_point {front : Text} (h : ∀ c ∈ front, c.isDigit = true) (behind : Text) :
    whole (front ++ '.' :: behind) = front ∧ places (front ++ '.' :: behind) = behind := by
  have hpoint : ∀ c ∈ front, (c != '.') = true := fun c hc => not_point_of_isDigit (h c hc)
  constructor
  · rw [whole, List.takeWhile_append_of_pos hpoint, List.takeWhile_cons_of_neg (by decide),
      List.append_nil]
  · rw [places, List.dropWhile_append_of_pos hpoint, List.dropWhile_cons_of_neg (by decide)]
    rfl

theorem isDigit_of_isNumeral {c : Char} (h : isNumeral c = true) (hc : c ≠ '.') :
    c.isDigit = true := by
  simpa [isNumeral, hc] using h

/-- Digits and points are digits only, or digits up to a first point. -/
theorem split_at_point {t : Text} (h : ∀ c ∈ t, isNumeral c = true) :
    (∀ c ∈ t, c.isDigit = true) ∨
      ∃ whole more : Text, t = whole ++ '.' :: more ∧ ∀ c ∈ whole, c.isDigit = true := by
  have ht := List.takeWhile_append_dropWhile (p := Char.isDigit) (l := t)
  have hwhole : ∀ c ∈ t.takeWhile Char.isDigit, c.isDigit = true :=
    fun c hc => List.mem_takeWhile_imp hc
  cases hrest : t.dropWhile Char.isDigit with
  | nil =>
    rw [hrest, List.append_nil] at ht
    rw [ht] at hwhole
    exact .inl hwhole
  | cons c more =>
    rw [hrest] at ht
    have hc : c.isDigit = false := by
      have := List.head?_dropWhile_not Char.isDigit t
      rw [hrest] at this
      simpa using this
    have hpoint : c = '.' := by
      by_contra hne
      have hmem : c ∈ t := ht ▸ List.mem_append_right _ List.mem_cons_self
      rw [isDigit_of_isNumeral (h c hmem) hne] at hc
      cases hc
    subst hpoint
    exact .inr ⟨_, more, ht.symm, hwhole⟩

/-- A literal is a run of digits, or two runs of digits with the point between them. -/
theorem IsLiteral.split {t : Text} (h : t.IsLiteral) :
    ∃ whole : Text, (∀ c ∈ whole, c.isDigit = true) ∧
      (t = whole ∨ ∃ more : Text, t = whole ++ '.' :: more ∧ ∀ c ∈ more, c.isDigit = true) := by
  obtain hall | ⟨whole, more, rfl, hwhole⟩ := split_at_point h.numeral
  · exact ⟨t, hall, .inl rfl⟩
  · refine ⟨whole, hwhole, .inr ⟨more, rfl, ?_⟩⟩
    intro d hd
    apply isDigit_of_isNumeral (h.numeral d (by simp [hd]))
    rintro rfl
    have hcount := h.point
    have := List.count_pos_iff.mpr hd
    rw [List.count_append, List.count_cons_self] at hcount
    omega

theorem isNumeral_of_isDigit {c : Char} (h : c.isDigit = true) : isNumeral c = true := by
  rw [isNumeral, h, Bool.true_or]

theorem count_point_of_digits {t : Text} (h : ∀ c ∈ t, c.isDigit = true) : t.count '.' = 0 := by
  refine List.count_eq_zero.mpr fun hpoint => ?_
  exact absurd (h '.' hpoint) (by decide)

theorem isLiteral_of_digits {t : Text} (hne : t ≠ []) (h : ∀ c ∈ t, c.isDigit = true) :
    t.IsLiteral where
  numeral c hc := isNumeral_of_isDigit (h c hc)
  digit := by
    obtain ⟨c, hc⟩ := List.exists_mem_of_ne_nil t hne
    exact ⟨c, hc, h c hc⟩
  point := by
    rw [count_point_of_digits h]
    exact Nat.zero_le 1

theorem isLiteral_point {whole more : Text} (hne : whole ++ more ≠ [])
    (hwhole : ∀ c ∈ whole, c.isDigit = true) (hmore : ∀ c ∈ more, c.isDigit = true) :
    IsLiteral (whole ++ '.' :: more) where
  numeral := by
    intro c hc
    obtain hc | rfl | hc := by simpa using hc
    · exact isNumeral_of_isDigit (hwhole c hc)
    · rfl
    · exact isNumeral_of_isDigit (hmore c hc)
  digit := by
    obtain ⟨c, hc⟩ := List.exists_mem_of_ne_nil _ hne
    obtain hc | hc := List.mem_append.mp hc
    · exact ⟨c, by simp [hc], hwhole c hc⟩
    · exact ⟨c, by simp [hc], hmore c hc⟩
  point := by
    rw [List.count_append, List.count_cons_self, count_point_of_digits hwhole,
      count_point_of_digits hmore]

/-- A run of digits writes them as a whole number. -/
theorem literalDecimal_of_digits {t : Text} (h : ∀ c ∈ t, c.isDigit = true) :
    t.literalDecimal = ⟨Nat.ofDigitChars 10 t 0, 0⟩ := by
  rw [literalDecimal, List.filter_eq_self.mpr h, (parts_of_digits h).2]
  rfl

theorem filter_isDigit_point {whole more : Text} (hwhole : ∀ c ∈ whole, c.isDigit = true)
    (hmore : ∀ c ∈ more, c.isDigit = true) :
    (whole ++ '.' :: more).filter Char.isDigit = whole ++ more := by
  rw [List.filter_append, List.filter_cons_of_neg (by decide), List.filter_eq_self.mpr hwhole,
    List.filter_eq_self.mpr hmore]

/-- Digits behind a point are places. -/
theorem literalDecimal_point {whole more : Text} (hwhole : ∀ c ∈ whole, c.isDigit = true)
    (hmore : ∀ c ∈ more, c.isDigit = true) :
    literalDecimal (whole ++ '.' :: more) =
      ⟨Nat.ofDigitChars 10 (whole ++ more) 0, more.length⟩ := by
  rw [literalDecimal, filter_isDigit_point hwhole hmore, (parts_point hwhole more).2]

/-- The parts of a literal are digits, and they determine its decimal. -/
theorem IsLiteral.parts {t : Text} (h : t.IsLiteral) :
    (∀ c ∈ t.whole ++ t.places, c.isDigit = true) ∧
      t.literalDecimal = ⟨Nat.ofDigitChars 10 (t.whole ++ t.places) 0, t.places.length⟩ := by
  obtain ⟨front, hfront, rfl | ⟨behind, rfl, hbehind⟩⟩ := h.split
  · obtain ⟨hwhole, hplaces⟩ := parts_of_digits hfront
    rw [hwhole, hplaces, List.append_nil]
    exact ⟨hfront, literalDecimal_of_digits hfront⟩
  · obtain ⟨hwhole, hplaces⟩ := parts_point hfront behind
    rw [hwhole, hplaces]
    refine ⟨?_, literalDecimal_point hfront hbehind⟩
    rw [List.forall_mem_append]
    exact ⟨hfront, hbehind⟩

end ExactCalculator.Text

namespace ExactCalculator

open Text

/-- Reading a literal keeps all its digits and counts those behind the point. -/
theorem Decimal.ofLiteral_of_isLiteral {t : Text} (h : t.IsLiteral) :
    Decimal.ofLiteral t = .ok t.literalDecimal := by
  obtain ⟨c, hc, hdigit⟩ := h.digit
  obtain ⟨whole, hwhole, rfl | ⟨more, rfl, hmore⟩⟩ := h.split
  · have htake : t.takeWhile Char.isDigit = t := List.takeWhile_eq_self_iff.mpr hwhole
    have hdrop : t.dropWhile Char.isDigit = [] := List.dropWhile_eq_nil_iff.mpr hwhole
    have hne : t ≠ [] := List.ne_nil_of_mem hc
    rw [literalDecimal_of_digits hwhole]
    simp [ofLiteral, splitPlaces, htake, hdrop, hne]
  · have htake : (whole ++ '.' :: more).takeWhile Char.isDigit = whole := by
      rw [List.takeWhile_append_of_pos hwhole, List.takeWhile_cons_of_neg (by decide),
        List.append_nil]
    have hdrop : (whole ++ '.' :: more).dropWhile Char.isDigit = '.' :: more := by
      rw [List.dropWhile_append_of_pos hwhole, List.dropWhile_cons_of_neg (by decide)]
    have hspan : more.span Char.isDigit = (more, []) := by
      rw [List.span_eq_takeWhile_dropWhile, List.takeWhile_eq_self_iff.mpr hmore,
        List.dropWhile_eq_nil_iff.mpr hmore]
    have hne : whole ++ more ≠ [] := by
      have hmem : c ∈ (whole ++ '.' :: more).filter Char.isDigit := List.mem_filter.mpr ⟨hc, hdigit⟩
      rw [filter_isDigit_point hwhole hmore] at hmem
      exact List.ne_nil_of_mem hmem
    have hempty : (whole ++ more).isEmpty = false := List.isEmpty_eq_false_iff.mpr hne
    rw [literalDecimal_point hwhole hmore]
    simp only [ofLiteral, splitPlaces, htake, hdrop, hspan, hempty]
    rfl

/-- A second point ends the reading, whatever follows it. -/
theorem Decimal.ofLiteral_second_point {whole places : Text}
    (hwhole : ∀ c ∈ whole, c.isDigit = true) (hplaces : ∀ c ∈ places, c.isDigit = true)
    (rest : Text) :
    Decimal.ofLiteral (whole ++ '.' :: (places ++ '.' :: rest)) = .error .multiplePoints := by
  have hdrop : (whole ++ '.' :: (places ++ '.' :: rest)).dropWhile Char.isDigit =
      '.' :: (places ++ '.' :: rest) := by
    rw [List.dropWhile_append_of_pos hwhole, List.dropWhile_cons_of_neg (by decide)]
  have hspan : (places ++ '.' :: rest).span Char.isDigit = (places, '.' :: rest) := by
    rw [List.span_eq_takeWhile_dropWhile, List.takeWhile_append_of_pos hplaces,
      List.takeWhile_cons_of_neg (by decide), List.append_nil,
      List.dropWhile_append_of_pos hplaces, List.dropWhile_cons_of_neg (by decide)]
  simp only [ofLiteral, splitPlaces, hdrop, hspan]

/-- A run of digits and points is a literal, or has too many points, or is a lone point. -/
theorem Decimal.ofLiteral_run {w : Text} (hne : w ≠ []) (hw : ∀ c ∈ w, isNumeral c = true) :
    w.IsLiteral ∨ (2 ≤ w.count '.' ∧ Decimal.ofLiteral w = .error .multiplePoints) ∨
      (w = ['.'] ∧ Decimal.ofLiteral w = .error .noDigits) := by
  by_cases hcount : w.count '.' ≤ 1
  · by_cases hdigit : ∃ c ∈ w, c.isDigit = true
    · exact .inl ⟨hw, hdigit, hcount⟩
    · -- Without a digit all are points, and there is one at most.
      have hall : ∀ c ∈ w, '.' = c := by
        intro c hc
        by_contra hpoint
        exact hdigit ⟨c, hc, isDigit_of_isNumeral (hw c hc) (Ne.symm hpoint)⟩
      have hlength : w.count '.' = w.length := List.count_eq_length.mpr hall
      obtain ⟨c, rest, rfl⟩ := List.exists_cons_of_ne_nil hne
      rw [hlength, List.length_cons] at hcount
      have hrest : rest = [] := List.eq_nil_of_length_eq_zero (by omega)
      have hc : '.' = c := hall c (by simp)
      subst hrest hc
      exact .inr (.inr ⟨rfl, rfl⟩)
  · refine .inr (.inl ⟨by omega, ?_⟩)
    obtain hall | ⟨whole, more, rfl, hwhole⟩ := split_at_point hw
    · have := count_point_of_digits hall
      omega
    · rw [List.count_append, List.count_cons_self, count_point_of_digits hwhole]
        at hcount
      obtain hall | ⟨places, rest, rfl, hplaces⟩ :=
        split_at_point fun c hc => hw c (List.mem_append_right _ (List.mem_cons_of_mem _ hc))
      · have := count_point_of_digits hall
        omega
      · exact ofLiteral_second_point hwhole hplaces rest

end ExactCalculator
