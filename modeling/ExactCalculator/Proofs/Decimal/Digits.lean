import ExactCalculator.Text.Basic
import Mathlib.Data.List.Induction

/-!
Runs of decimal digits and the numbers they write. Zeros in front do not count, so a number has many
runs of digits, but only one of each length: the digits of the number itself, filled up with zeros
(`leftpad_toDigits`). A run that is cut in front of its last places is found again from its number
and the number of places, unless its front part has a zero too many (`leftpad_toDigits_of_whole`).
-/
namespace ExactCalculator.Text

theorem exists_digitChar {c : Char} (h : c.isDigit = true) : ∃ n < 10, c = n.digitChar := by
  have hrange : 48 ≤ c.toNat ∧ c.toNat ≤ 57 := Char.isDigit_iff_toNat.mp h
  refine ⟨c.toNat - 48, by omega, Char.toNat_inj.mp ?_⟩
  rw [Nat.toNat_digitChar_of_lt_ten (by omega)]
  omega

/-- One more digit. -/
theorem ofDigitChars_concat {n : Nat} (hn : n < 10) (t : Text) :
    Nat.ofDigitChars 10 (t ++ [n.digitChar]) 0 = 10 * Nat.ofDigitChars 10 t 0 + n := by
  rw [Nat.ofDigitChars_append, Nat.ofDigitChars_cons_digitChar_of_lt_ten hn, Nat.ofDigitChars_nil]

/-- Only zeros write zero. -/
theorem ofDigitChars_eq_zero_iff {t : Text} (h : ∀ c ∈ t, c.isDigit = true) :
    Nat.ofDigitChars 10 t 0 = 0 ↔ ∀ c ∈ t, c = '0' := by
  induction t using List.reverseRecOn with
  | nil => simp
  | append_singleton t c ih =>
    rw [List.forall_mem_append, List.forall_mem_singleton] at h
    obtain ⟨n, hn, rfl⟩ := exists_digitChar h.2
    rw [ofDigitChars_concat hn, List.forall_mem_append, List.forall_mem_singleton, ← ih h.1,
      Nat.digitChar_eq_zero]
    omega

theorem all_zeros_iff {t : Text} (h : ∀ c ∈ t, c.isDigit = true) :
    t.all (· == '0') = true ↔ Nat.ofDigitChars 10 t 0 = 0 := by
  rw [ofDigitChars_eq_zero_iff h, List.all_eq_true]
  simp only [beq_iff_eq]

/-- Zeros in front do not count. -/
theorem ofDigitChars_dropWhile_zero (t : Text) :
    Nat.ofDigitChars 10 (t.dropWhile (· == '0')) 0 = Nat.ofDigitChars 10 t 0 := by
  induction t with
  | nil => rfl
  | cons c t ih =>
    by_cases hc : c = '0'
    · subst hc
      rw [List.dropWhile_cons_of_pos (by decide), ih, Nat.ofDigitChars_cons]
      rfl
    · rw [List.dropWhile_cons_of_neg (by simpa using hc)]

theorem leftpad_concat (t : Text) (c : Char) (length : Nat) :
    (t ++ [c]).leftpad (length + 1) '0' = t.leftpad length '0' ++ [c] := by
  simp [List.leftpad]

/-- A run of digits is made of the digits of its number, with zeros in front up to its length. -/
theorem leftpad_toDigits {t : Text} (h : ∀ c ∈ t, c.isDigit = true) (hne : t ≠ []) :
    (Nat.toDigits 10 (Nat.ofDigitChars 10 t 0)).leftpad t.length '0' = t := by
  induction t using List.reverseRecOn with
  | nil => exact absurd rfl hne
  | append_singleton t c ih =>
    rw [List.forall_mem_append, List.forall_mem_singleton] at h
    obtain ⟨n, hn, rfl⟩ := exists_digitChar h.2
    rw [ofDigitChars_concat hn, List.length_append, List.length_singleton]
    by_cases hzero : Nat.ofDigitChars 10 t 0 = 0
    · have hzeros := List.eq_replicate_of_mem ((ofDigitChars_eq_zero_iff h.1).mp hzero)
      rw [hzero, Nat.mul_zero, Nat.zero_add, Nat.toDigits_of_lt_base hn, List.leftpad,
        List.length_singleton, Nat.add_sub_cancel, ← hzeros]
    · have hnotNil : t ≠ [] := by
        rintro rfl
        exact hzero rfl
      have hdiv : (10 * Nat.ofDigitChars 10 t 0 + n) / 10 = Nat.ofDigitChars 10 t 0 := by omega
      have hmod : (10 * Nat.ofDigitChars 10 t 0 + n) % 10 = n := by omega
      rw [Nat.toDigits_of_base_le (by decide) (by omega), hdiv, hmod, leftpad_concat,
        ih h.1 hnotNil]

/-- Digits in front of places and the places themselves, found again from the number they write. -/
theorem leftpad_toDigits_of_whole {whole places : Text}
    (h : ∀ c ∈ whole ++ places, c.isDigit = true) (hne : whole ≠ [])
    (hzero : whole.head? = some '0' → whole = ['0']) :
    (Nat.toDigits 10 (Nat.ofDigitChars 10 (whole ++ places) 0)).leftpad (places.length + 1) '0' =
      whole ++ places := by
  have hpad := leftpad_toDigits h (List.append_ne_nil_of_left_ne_nil hne places)
  generalize Nat.toDigits 10 (Nat.ofDigitChars 10 (whole ++ places) 0) = digits at hpad ⊢
  by_cases hlone : whole = ['0']
  · have hlength : (whole ++ places).length = places.length + 1 := by
      rw [hlone, List.singleton_append, List.length_cons]
    rw [← hlength, hpad]
  · -- Without a zero in front nothing was filled up.
    have hfull : (whole ++ places).length - digits.length = 0 := by
      by_contra hless
      obtain ⟨more, hmore⟩ := Nat.exists_eq_succ_of_ne_zero hless
      obtain ⟨c, rest, rfl⟩ := List.exists_cons_of_ne_nil hne
      rw [List.leftpad, hmore, List.replicate_succ, List.cons_append, List.cons_append,
        List.cons.injEq] at hpad
      exact hlone (hzero (congrArg some hpad.1.symm))
    rw [List.leftpad, hfull, List.replicate_zero, List.nil_append] at hpad
    have hlength : whole.length + places.length = digits.length := by
      rw [hpad, List.length_append]
    have hwhole := List.length_pos_iff.mpr hne
    rw [List.leftpad, show places.length + 1 - digits.length = 0 by omega, List.replicate_zero,
      List.nil_append, hpad]

end ExactCalculator.Text
