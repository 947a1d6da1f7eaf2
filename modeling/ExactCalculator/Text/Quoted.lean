import ExactCalculator.Text.Basic

/-!
Quoted texts: double quotes around a text in which the quotes, backslashes and control characters of
ASCII are escaped. Characters beyond ASCII that do not show are left as they are here, although the
quoted form that this follows escapes them too: only texts that were evaluated with success get
quoted, and these consist of digits, points, signs, parentheses and spaces, none of which is escaped
(`quote_of_plain`).
-/
namespace ExactCalculator.Text

/-- The characters that are written with a letter of their own after a backslash. -/
def escapeLetter? : Char → Option Char
  | '"' => some '"'
  | '\\' => some '\\'
  | '\t' => some 't'
  | '\n' => some 'n'
  | '\r' => some 'r'
  | '\x00' => some '0'
  | _ => none

def isControl (c : Char) : Bool := c.toNat < 0x20 || c.toNat == 0x7F

def escape (c : Char) : Text :=
  match escapeLetter? c with
  | some letter => ['\\', letter]
  | none =>
    if isControl c then '\\' :: 'u' :: '{' :: (Nat.toDigits 16 c.toNat ++ ['}']) else [c]

def quote (t : Text) : Text := '"' :: (t.flatMap escape ++ ['"'])

/-- A character that needs no escape is written as itself. -/
theorem escape_of_plain {c : Char} (hl : escapeLetter? c = none) (hc : isControl c = false) :
    escape c = [c] := by
  simp [escape, hl, hc]

/-- Quotes alone are put around a text in which nothing needs an escape. -/
theorem quote_of_plain {t : Text}
    (h : ∀ c ∈ t, escapeLetter? c = none ∧ isControl c = false) :
    quote t = '"' :: (t ++ ['"']) := by
  have hall : t.flatMap escape = t := by
    induction t with
    | nil => rfl
    | cons c t ih =>
      have hc := h c (by simp)
      rw [List.flatMap_cons, escape_of_plain hc.1 hc.2, ih fun d hd => h d (by simp [hd])]
      rfl
  rw [quote, hall]

end ExactCalculator.Text
