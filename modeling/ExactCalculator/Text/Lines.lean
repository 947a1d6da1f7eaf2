import ExactCalculator.Text.Basic

/-!
The lines of a text. A line ends at a line feed or at the end of the text; a carriage return
directly before the line feed belongs to the line end, any other one to the line. A line feed at the
very end of a text ends the last line and does not begin another one, so `"a\n"` has one line and
the empty text has none.
-/
namespace ExactCalculator.Text

def lines : Text → List Text
  | [] => []
  | '\n' :: t => [] :: lines t
  | '\r' :: '\n' :: t => [] :: lines t
  | c :: t =>
    match lines t with
    | [] => [[c]]
    | l :: ls => (c :: l) :: ls

@[simp] theorem lines_nil : lines [] = [] := by simp [lines]
@[simp] theorem lines_feed (t : Text) : lines ('\n' :: t) = [] :: lines t := by simp [lines]
@[simp] theorem lines_return_feed (t : Text) :
    lines ('\r' :: '\n' :: t) = [] :: lines t := by simp [lines]

/-- A text is cut into no line at all only when it is empty. -/
@[simp] theorem lines_eq_nil_iff (t : Text) : lines t = [] ↔ t = [] := by
  fun_cases lines t with
  | case1 => simp
  | case2 t => simp
  | case3 t => simp
  | case4 c t hfeed hreturn h => simp
  | case5 c t hfeed hreturn l ls h => simp

end ExactCalculator.Text
