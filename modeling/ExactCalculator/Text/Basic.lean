/-!
Texts as lists of characters. A position in a text is a number of UTF-8 bytes, never a number of
characters, so every cut is measured by `byteLength`. The main statements say that a cut inside of a
leading part does not see what follows (`takeBytes_append_left`) and that a cut behind it leaves it
whole (`takeBytes_append_right`).
-/
namespace ExactCalculator

abbrev Text := List Char

namespace Text

/-- The number of bytes that a text takes in UTF-8. -/
def byteLength : Text → Nat
  | [] => 0
  | c :: t => c.utf8Size + byteLength t

@[simp] theorem byteLength_nil : byteLength [] = 0 := rfl
@[simp] theorem byteLength_cons (c : Char) (t : Text) :
    byteLength (c :: t) = c.utf8Size + byteLength t := rfl
@[simp] theorem byteLength_append (s t : Text) :
    byteLength (s ++ t) = byteLength s + byteLength t := by
  induction s with
  | nil => simp
  | cons c s ih => simp [ih, Nat.add_assoc]

/-- The longest leading part that fits into the given number of bytes. -/
def takeBytes : Nat → Text → Text
  | _, [] => []
  | n, c :: t => if c.utf8Size ≤ n then c :: takeBytes (n - c.utf8Size) t else []

@[simp] theorem takeBytes_nil (n : Nat) : takeBytes n [] = [] := rfl
@[simp] theorem takeBytes_zero (t : Text) : takeBytes 0 t = [] := by
  cases t with
  | nil => rfl
  | cons c t =>
    have := c.utf8Size_pos
    simp only [takeBytes, ite_eq_right_iff]
    omega

/-- A cut inside of a text does not see what follows the text. -/
theorem takeBytes_append_left {n : Nat} {s : Text} (h : n ≤ byteLength s) (t : Text) :
    takeBytes n (s ++ t) = takeBytes n s := by
  induction s generalizing n with
  | nil =>
    obtain rfl : n = 0 := Nat.le_zero.mp h
    rw [takeBytes_zero, takeBytes_zero]
  | cons c s ih =>
    rw [byteLength_cons] at h
    rw [List.cons_append, takeBytes, takeBytes, ih (by omega)]

/-- A cut behind a leading part leaves this part whole. -/
theorem takeBytes_append_right (s t : Text) (n : Nat) :
    takeBytes (byteLength s + n) (s ++ t) = s ++ takeBytes n t := by
  induction s with
  | nil => rw [byteLength_nil, Nat.zero_add, List.nil_append, List.nil_append]
  | cons c s ih =>
    have hsize : c.utf8Size + byteLength s + n - c.utf8Size = byteLength s + n := by omega
    rw [byteLength_cons, List.cons_append, takeBytes, if_pos (by omega), hsize, ih,
      List.cons_append]

/-- The number of the line that holds a byte position; the first line is line 1. -/
def lineAt (t : Text) (byte : Nat) : Nat := 1 + (takeBytes byte t).count '\n'

theorem lineAt_append_left {n : Nat} {s : Text} (h : n ≤ byteLength s) (t : Text) :
    lineAt (s ++ t) n = lineAt s n := by
  rw [lineAt, takeBytes_append_left h, lineAt]

/-- Behind a leading part the lines are counted on from its own. -/
theorem lineAt_append_right (s t : Text) (n : Nat) :
    lineAt (s ++ t) (byteLength s + n) = lineAt t n + s.count '\n' := by
  rw [lineAt, takeBytes_append_right, List.count_append, lineAt]
  omega

end Text
end ExactCalculator
