import ExactCalculator.Proofs.Decimal.Digits
import ExactCalculator.Proofs.Decimal.Written

/-!
The parts of a written form. A number is written with a sign where it is negative, with at least one
digit in front of the point and no zero too many there, and with a point exactly where places
follow. Every such form is the written form of the decimal it stands for
(`WrittenForm.render_decimal`), and every text that is read as a decimal has the same parts once it
is tidied, so writing undoes reading up to zeros in front, a bare point and the sign of zero
(`render_of_ofSigned`).
-/
namespace ExactCalculator

namespace Text

/-- A point in front of places; no point where there are none. -/
def pointed : Text → Text
  | [] => []
  | c :: places => '.' :: c :: places

/-- Digits in front of the point without the zeros that stand before another digit; one zero where
no digit is left. -/
def tidyWhole (whole : Text) : Text :=
  match whole.dropWhile (· == '0') with
  | [] => ['0']
  | c :: digits => c :: digits

/-- An unsigned decimal text without zeros too many in front and without a bare point. -/
def tidyMagnitude (t : Text) : Text := tidyWhole t.whole ++ pointed t.places

/-- A decimal text with its magnitude tidied, and without its sign when all digits are zeros. -/
def tidied : Text → Text
  | '-' :: t =>
    if (whole t ++ places t).all (· == '0') then tidyMagnitude t else '-' :: tidyMagnitude t
  | t => tidyMagnitude t

end Text

open Text

structure WrittenForm where
  negative : Bool
  whole : Text
  places : Text
  whole_ne_nil : whole ≠ []
  isDigit : ∀ c ∈ whole ++ places, c.isDigit = true
  /-- A zero stands first only when it stands alone. -/
  no_leading_zero : whole.head? = some '0' → whole = ['0']
  /-- Zero has no sign. -/
  exists_ne_zero : negative = true → ∃ c ∈ whole ++ places, c ≠ '0'

namespace WrittenForm

def text (w : WrittenForm) : Text :=
  (if w.negative then ['-'] else []) ++ (w.whole ++ pointed w.places)

def magnitude (w : WrittenForm) : Nat := Nat.ofDigitChars 10 (w.whole ++ w.places) 0

def decimal (w : WrittenForm) : Decimal :=
  ⟨if w.negative then -w.magnitude else w.magnitude, w.places.length⟩

@[simp] theorem natAbs_mantissa (w : WrittenForm) : w.decimal.mantissa.natAbs = w.magnitude := by
  unfold decimal
  split <;> simp

theorem mantissa_neg_iff (w : WrittenForm) : w.decimal.mantissa < 0 ↔ w.negative = true := by
  have hmantissa : w.decimal.mantissa = if w.negative then -(w.magnitude : Int) else w.magnitude :=
    rfl
  by_cases hsign : w.negative = true
  · obtain ⟨c, hc, hne⟩ := w.exists_ne_zero hsign
    have hpos : w.magnitude ≠ 0 := fun hzero =>
      hne ((ofDigitChars_eq_zero_iff w.isDigit).mp hzero c hc)
    rw [hmantissa, if_pos hsign]
    exact iff_of_true (by omega) hsign
  · rw [hmantissa, if_neg hsign]
    exact iff_of_false (by omega) hsign

/-- The digits of a written form are found again from its decimal. -/
theorem paddedDigits_decimal (w : WrittenForm) : w.decimal.paddedDigits = w.whole ++ w.places := by
  rw [Decimal.paddedDigits, natAbs_mantissa]
  exact leftpad_toDigits_of_whole w.isDigit w.whole_ne_nil w.no_leading_zero

theorem renderMagnitude_decimal (w : WrittenForm) :
    w.decimal.renderMagnitude = w.whole ++ pointed w.places := by
  have hscale : w.decimal.scale = w.places.length := rfl
  unfold Decimal.renderMagnitude
  rw [paddedDigits_decimal, hscale]
  cases w.places with
  | nil => rfl
  | cons c places =>
    have hlength : (w.whole ++ c :: places).length - (c :: places).length = w.whole.length := by
      rw [List.length_append, Nat.add_sub_cancel]
    simp only [List.length_cons, Nat.succ_ne_zero, if_false] at hlength ⊢
    rw [hlength, List.take_left, List.drop_left]
    rfl

/-- A written form is how its decimal is written. -/
theorem render_decimal (w : WrittenForm) : w.decimal.render = w.text := by
  unfold Decimal.render text
  rw [renderMagnitude_decimal]
  by_cases hsign : w.negative = true
  · rw [if_pos (w.mantissa_neg_iff.mpr hsign), if_pos hsign]
    rfl
  · rw [if_neg (mt w.mantissa_neg_iff.mp hsign), if_neg hsign]
    rfl

end WrittenForm

namespace Text

theorem tidyWhole_eq (t : Text) :
    (t.dropWhile (· == '0') = [] ∧ tidyWhole t = ['0']) ∨
      (t.dropWhile (· == '0') ≠ [] ∧ tidyWhole t = t.dropWhile (· == '0')) := by
  unfold tidyWhole
  split
  next h => exact .inl ⟨h, rfl⟩
  next c digits h => exact .inr ⟨by simp [h], h.symm⟩

theorem isDigit_tidyWhole {whole places : Text} (h : ∀ c ∈ whole ++ places, c.isDigit = true) :
    ∀ c ∈ tidyWhole whole ++ places, c.isDigit = true := by
  rw [List.forall_mem_append] at h ⊢
  refine ⟨?_, h.2⟩
  obtain ⟨-, htidy⟩ | ⟨-, htidy⟩ := tidyWhole_eq whole
  · rw [htidy, List.forall_mem_singleton]
    rfl
  · rw [htidy]
    exact fun c hc => h.1 c ((List.dropWhile_sublist _).subset hc)

theorem tidyWhole_ne_nil (t : Text) : tidyWhole t ≠ [] := by
  obtain ⟨-, htidy⟩ | ⟨hne, htidy⟩ := tidyWhole_eq t
  · rw [htidy]
    exact List.cons_ne_nil _ _
  · rw [htidy]
    exact hne

/-- The only zero that stands first in tidied digits stands alone. -/
theorem tidyWhole_of_head?_eq {t : Text} (h : (tidyWhole t).head? = some '0') :
    tidyWhole t = ['0'] := by
  obtain ⟨-, htidy⟩ | ⟨-, htidy⟩ := tidyWhole_eq t
  · exact htidy
  · have hhead := List.head?_dropWhile_not (· == '0') t
    rw [← htidy, h] at hhead
    cases hhead

/-- Zeros left out in front do not change the number. -/
theorem ofDigitChars_tidyWhole (t more : Text) :
    Nat.ofDigitChars 10 (tidyWhole t ++ more) 0 = Nat.ofDigitChars 10 (t ++ more) 0 := by
  rw [Nat.ofDigitChars_append, Nat.ofDigitChars_append, ← ofDigitChars_dropWhile_zero t]
  obtain ⟨hnil, htidy⟩ | ⟨-, htidy⟩ := tidyWhole_eq t
  · rw [htidy, hnil]
    rfl
  · rw [htidy]

theorem tidied_of_isLiteral {t : Text} (h : t.IsLiteral) : t.tidied = t.tidyMagnitude := by
  unfold tidied
  split
  · exact absurd h (Decimal.not_isLiteral_minus _)
  · rfl

end Text

namespace WrittenForm

variable {whole places : Text} (h : ∀ c ∈ whole ++ places, c.isDigit = true)

/-- Digits in their tidied form; a sign is left out in front of zeros alone. -/
def ofDigits (negative : Bool) : WrittenForm where
  negative := negative && !(whole ++ places).all (· == '0')
  whole := tidyWhole whole
  places := places
  whole_ne_nil := tidyWhole_ne_nil whole
  isDigit := isDigit_tidyWhole h
  no_leading_zero := tidyWhole_of_head?_eq
  exists_ne_zero := by
    intro hsign
    by_contra hzeros
    push Not at hzeros
    have hnumber : Nat.ofDigitChars 10 (whole ++ places) 0 = 0 := by
      rw [← ofDigitChars_tidyWhole]
      exact (ofDigitChars_eq_zero_iff (isDigit_tidyWhole h)).mpr hzeros
    rw [(all_zeros_iff h).mpr hnumber, Bool.not_true, Bool.and_false] at hsign
    cases hsign

theorem magnitude_ofDigits (negative : Bool) :
    (ofDigits h negative).magnitude = Nat.ofDigitChars 10 (whole ++ places) 0 :=
  ofDigitChars_tidyWhole whole places

theorem text_ofDigits_false :
    (ofDigits h false).text = tidyWhole whole ++ pointed places := rfl

theorem decimal_ofDigits_false :
    (ofDigits h false).decimal = ⟨Nat.ofDigitChars 10 (whole ++ places) 0, places.length⟩ := by
  rw [← magnitude_ofDigits h false]
  rfl

theorem text_ofDigits_true :
    (ofDigits h true).text =
      if (whole ++ places).all (· == '0') then tidyWhole whole ++ pointed places
      else '-' :: (tidyWhole whole ++ pointed places) := by
  cases hzeros : (whole ++ places).all (· == '0') with
  | true => simp [text, ofDigits, hzeros]
  | false => simp [text, ofDigits, hzeros]

/-- The sign that is left out in front of zeros does not change their number. -/
theorem decimal_ofDigits_true :
    (ofDigits h true).decimal = -⟨Nat.ofDigitChars 10 (whole ++ places) 0, places.length⟩ := by
  have hsign : (ofDigits h true).negative = !(whole ++ places).all (· == '0') := Bool.true_and _
  rw [decimal, magnitude_ofDigits, hsign]
  cases hzeros : (whole ++ places).all (· == '0') with
  | true =>
    rw [(all_zeros_iff h).mp hzeros]
    rfl
  | false => rfl

end WrittenForm

/-- What is read from a text is what its tidied form is the written form of. -/
theorem Decimal.exists_writtenForm {t : Text} {d : Decimal} (h : ofSigned t = .ok d) :
    ∃ w : WrittenForm, w.text = t.tidied ∧ w.decimal = d := by
  obtain ⟨hliteral, rfl⟩ | ⟨m, rfl, hliteral, rfl⟩ := ofSigned_eq_ok_iff.mp h
  · obtain ⟨hdigits, hdecimal⟩ := hliteral.parts
    refine ⟨.ofDigits hdigits false, ?_, ?_⟩
    · rw [WrittenForm.text_ofDigits_false, tidied_of_isLiteral hliteral, tidyMagnitude]
    · rw [WrittenForm.decimal_ofDigits_false, hdecimal]
  · obtain ⟨hdigits, hdecimal⟩ := hliteral.parts
    refine ⟨.ofDigits hdigits true, ?_, ?_⟩
    · rw [WrittenForm.text_ofDigits_true]
      rfl
    · rw [WrittenForm.decimal_ofDigits_true, hdecimal]

/-- Writing what was read gives the text back in its tidied form. -/
theorem Decimal.render_of_ofSigned {t : Text} {d : Decimal} (h : ofSigned t = .ok d) :
    d.render = t.tidied := by
  obtain ⟨w, htext, rfl⟩ := exists_writtenForm h
  rw [w.render_decimal, htext]

theorem Decimal.render_injective : Function.Injective render := by
  intro a b h
  have ha := ofSigned_render a
  rw [h, ofSigned_render b] at ha
  cases ha
  rfl

/-- A decimal is written with a sign only below zero, and with as many places as its scale; it is
read back from there as itself, so that no two decimals are written alike. A text from which a
decimal is read is written again with its zeros in front, its bare point and its sign of zero gone.
-/
theorem Decimal.render_inverse :
    (∀ d : Decimal,
      (∃ w : WrittenForm, d.render = w.text ∧ w.places.length = d.scale ∧
        (w.negative = true ↔ d.toRat < 0)) ∧
      ofSigned d.render = .ok d ∧ (0 ≤ d.toRat → ofLiteral d.render = .ok d)) ∧
    Function.Injective render ∧
    ∀ (t : Text) (d : Decimal), ofSigned t = .ok d → d.render = t.tidied := by
  refine ⟨fun d => ⟨?_, ofSigned_render d, fun hsign => ?_⟩, render_injective,
    fun t d => render_of_ofSigned⟩
  · obtain ⟨w, -, rfl⟩ := exists_writtenForm d.ofSigned_render
    refine ⟨w, w.render_decimal, rfl, ?_⟩
    rw [toRat_neg_iff, w.mantissa_neg_iff]
  · obtain ⟨hrender, hvalue⟩ := render_of_nonneg hsign
    rw [hrender, ofLiteral_of_isLiteral d.renderMagnitude_writes.1, hvalue]

/-- `0.05` is read back as a literal, and `-007.` is written again as `-7`. -/
theorem Decimal.render_inverse_instances :
    ofLiteral (render ⟨5, 2⟩) = .ok ⟨5, 2⟩ ∧
    render ⟨-7, 0⟩ = Text.tidied ['-', '0', '0', '7', '.'] := by
  obtain ⟨hdecimal, -, htext⟩ := render_inverse
  exact ⟨(hdecimal ⟨5, 2⟩).2.2 (by norm_num [toRat]), htext _ _ (by decide +kernel)⟩

example : Text.tidied ['-', '0', '0', '7', '.'] = ['-', '7'] := by decide
example : Text.tidied ['-', '.', '0', '0'] = ['0', '.', '0', '0'] := by decide

end ExactCalculator
