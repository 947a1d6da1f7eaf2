import ExactCalculator.Text.Basic

/-!
Blank characters: the code points with the Unicode property White_Space. Trimming removes them
from the ends of a text, and a text is blank when trimming leaves nothing of it.
-/
namespace ExactCalculator.Text

/-- First and last code point of each run of blank characters, in ascending order. -/
def blankRanges : List (Nat × Nat) :=
  [(0x09, 0x0D), (0x20, 0x20), (0x85, 0x85), (0xA0, 0xA0), (0x1680, 0x1680), (0x2000, 0x200A),
    (0x2028, 0x2029), (0x202F, 0x202F), (0x205F, 0x205F), (0x3000, 0x3000)]

def isBlank (c : Char) : Bool :=
  blankRanges.any fun (first, last) => first ≤ c.toNat && c.toNat ≤ last

def trimStart (t : Text) : Text := t.dropWhile isBlank
def trimEnd (t : Text) : Text := (t.reverse.dropWhile isBlank).reverse
def trim (t : Text) : Text := trimEnd (trimStart t)

theorem trimStart_eq_nil_iff (t : Text) : trimStart t = [] ↔ ∀ c ∈ t, isBlank c = true := by
  induction t with
  | nil => simp [trimStart]
  | cons c t ih =>
    by_cases h : isBlank c = true
    · rw [trimStart, List.dropWhile_cons_of_pos h, List.forall_mem_cons]
      exact ⟨fun hnil => ⟨h, ih.mp hnil⟩, fun hall => ih.mpr hall.2⟩
    · simp [trimStart, h]

/-- Trimming leaves nothing exactly when every character is blank. -/
theorem trim_eq_nil_iff (t : Text) : trim t = [] ↔ ∀ c ∈ t, isBlank c = true := by
  rw [← trimStart_eq_nil_iff]
  constructor
  · intro h
    have hall : ∀ c ∈ (trimStart t).reverse, isBlank c = true :=
      (trimStart_eq_nil_iff _).mp (List.reverse_eq_nil_iff.mp h)
    cases hs : trimStart t with
    | nil => rfl
    | cons c r =>
      have hc : isBlank c = false := by
        have := List.head?_dropWhile_not isBlank t
        rw [show t.dropWhile isBlank = c :: r from hs] at this
        simpa using this
      have := hall c (by simp [hs])
      simp [hc] at this
  · intro h
    simp [trim, h, trimEnd]

end ExactCalculator.Text
