import ExactCalculator.Proofs.Run.Ending
import ExactCalculator.Text.Blank
import ExactCalculator.Text.Quoted

/-!
The characters of texts without lexical faults. Eighteen characters make up all tokens and the
spaces around them (`Text.mem_alphabet`). None of them needs an escape, none begins a comment or
ends a line, and the only blank one is the space. A text with a value has no others.
-/
namespace ExactCalculator.Text

/-- The space and the characters that tokens are made of. -/
def alphabet : List Char :=
  [' ', '(', ')', '+', '-', '*', '/', '.', '0', '1', '2', '3', '4', '5', '6', '7', '8', '9']

theorem mem_alphabet_of_isNumeral {c : Char} (h : isNumeral c = true) : c ∈ alphabet := by
  have hascii : ∀ n < 128, isNumeral (Char.ofNat n) = true → Char.ofNat n ∈ alphabet := by
    decide +kernel
  have hc : c.toNat < 128 := by
    obtain hdigit | rfl : c.isDigit = true ∨ c = '.' := by simpa [isNumeral] using h
    · have hrange : 48 ≤ c.toNat ∧ c.toNat ≤ 57 := by
        simpa [Char.isDigit, UInt32.le_iff_toNat_le] using hdigit
      omega
    · decide
  have hmem := hascii c.toNat hc
  rw [Char.ofNat_toNat] at hmem
  exact hmem h

theorem mem_alphabet_of_symbol (op : Operator) : op.symbol ∈ alphabet := by cases op <;> decide

/-- A token is made of characters of the alphabet. -/
theorem mem_alphabet_of_token {l : Lexeme} {offset : Nat}
    (hl : ∀ w, l = .run w → ∀ c ∈ w, isNumeral c = true)
    (h : ∃ token, (Item.mk l offset).token = .ok token) : ∀ c ∈ l.text, c ∈ alphabet := by
  obtain ⟨w, value, rfl, -⟩ | rfl | rfl | ⟨op, rfl⟩ | ⟨cause, hcause⟩ := l.sorts
  · exact fun c hc => mem_alphabet_of_isNumeral (hl w rfl c hc)
  · simp [Lexeme.text, alphabet]
  · simp [Lexeme.text, alphabet]
  · simpa [Lexeme.text] using mem_alphabet_of_symbol op
  · obtain ⟨token, htoken⟩ := h
    rw [Item.token_of_error hcause] at htoken
    cases htoken

/-- A text of tokens has no other characters than these. -/
theorem mem_alphabet {t : Text} {offset : Nat}
    (h : ∀ i ∈ itemsAt offset t, ∃ token, i.token = .ok token) : ∀ c ∈ t, c ∈ alphabet := by
  induction t using lexemeInduction generalizing offset with
  | nil => simp
  | space t ih =>
    rw [itemsAt_space] at h
    rw [List.forall_mem_cons]
    exact ⟨by decide, ih h⟩
  | lexeme l t hitems hl ih =>
    rw [hitems, List.forall_mem_cons] at h
    rw [List.forall_mem_append]
    exact ⟨mem_alphabet_of_token hl h.1, ih h.2⟩

/-- The only blank character of the alphabet is the space. -/
theorem eq_space_of_isBlank {c : Char} (h : c ∈ alphabet) (hblank : isBlank c = true) :
    c = ' ' := by
  have hall : alphabet.all (fun c => isBlank c → c = ' ') = true := by decide
  simpa [hblank] using List.all_eq_true.mp hall c h

theorem not_isBlank_of_isNumeral {c : Char} (h : isNumeral c = true) : isBlank c = false := by
  by_contra hblank
  rw [Bool.not_eq_false] at hblank
  rw [eq_space_of_isBlank (mem_alphabet_of_isNumeral h) hblank] at h
  exact absurd h (by decide)

/-- Between quotes a text of tokens stands unchanged. -/
theorem Lexes.quote_eq {t : Text} (h : t.Lexes) : t.quote = '"' :: (t ++ ['"']) := by
  have hplain : alphabet.all (fun c => escapeLetter? c = none ∧ isControl c = false) = true := by
    decide
  refine quote_of_plain fun c hc => ?_
  simpa using List.all_eq_true.mp hplain c (mem_alphabet h c hc)

/-- A text of tokens does not begin as a comment, however many blanks stand in front. -/
theorem Lexes.find?_not_isBlank_ne {t : Text} (h : t.Lexes) :
    t.find? (fun c => !isBlank c) ≠ some '#' := by
  intro hfind
  exact absurd (mem_alphabet h '#' (List.mem_of_find?_eq_some hfind)) (by decide)

theorem Lexes.feed_not_mem {t : Text} (h : t.Lexes) : '\n' ∉ t :=
  fun hmem => absurd (mem_alphabet h '\n' hmem) (by decide)

/-- All lexemes of a text with a value are tokens. -/
theorem lexes_of_evaluate {t : Text} {v : Decimal} (h : evaluate t = .ok v) : t.Lexes := by
  have hcount : IsCount (evaluate t) := by
    rw [h]
    trivial
  exact (counted_of_isCount hcount).2.1

end ExactCalculator.Text
