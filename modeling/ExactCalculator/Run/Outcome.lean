import ExactCalculator.Cursor
import ExactCalculator.Run.State

/-!
A whole run over one text and what comes of it: the operators applied, in order, and the value or
the first fault. The value is normalized at the very end only; operands inside a run keep their
scales.
-/
namespace ExactCalculator

/-- What is left on the bench at the end: one value, or too few or too many. -/
def Bench.result (b : Bench) (length : Nat) : Except Fault Decimal :=
  match b.operands.reverse with
  | [] => .error ⟨.emptyExpression, ⟨0, length⟩⟩
  | [x] => .ok x.value.normalized
  | _ :: extra :: _ => .error ⟨.danglingOperand, extra.span⟩

structure Outcome where
  /-- The earliest first. -/
  folds : List Fold
  result : Except Fault Decimal

/-- The state after the whole text is read, or the halt on the way. -/
def Text.state (t : Text) : Except Halt State := State.start.readAll t.items

/-- Reads a text, folds what then still waits, and takes the value left. -/
def Text.run (t : Text) : Outcome :=
  match t.state with
  | .error halt => ⟨halt.folds.reverse, .error halt.fault⟩
  | .ok s =>
    match s.finish with
    | .error halt => ⟨halt.folds.reverse, .error halt.fault⟩
    | .ok bench => ⟨bench.folds.reverse, bench.result (Text.byteLength t)⟩

/-- The normalized value of an expression, or its first fault in reading order. -/
def evaluate (t : Text) : Except Fault Decimal := t.run.result

/-- A fault on the way to the end is the outcome. -/
theorem Text.run_of_state_error {t : Text} {halt : Halt} (h : t.state = .error halt) :
    t.run = ⟨halt.folds.reverse, .error halt.fault⟩ := by
  rw [run, h]

/-- So is a fault in what waits at the end. -/
theorem Text.run_of_finish_error {t : Text} {s : State} {halt : Halt} (h : t.state = .ok s)
    (hf : s.finish = .error halt) : t.run = ⟨halt.folds.reverse, .error halt.fault⟩ := by
  simp only [run, h, hf]

theorem Text.run_of_finish_ok {t : Text} {s : State} {bench : Bench} (h : t.state = .ok s)
    (hf : s.finish = .ok bench) :
    t.run = ⟨bench.folds.reverse, bench.result (Text.byteLength t)⟩ := by
  simp only [run, h, hf]

/-- There is a value exactly when one operand is left. -/
theorem Bench.result_eq_ok_iff (b : Bench) (length : Nat) (value : Decimal) :
    b.result length = .ok value ↔ ∃ x, b.operands = [x] ∧ value = x.value.normalized := by
  rcases b with ⟨operands, folds⟩
  rcases List.eq_nil_or_concat operands with rfl | ⟨upper, bottom, rfl⟩
  · simp [result]
  · rcases List.eq_nil_or_concat upper with rfl | ⟨upper, extra, rfl⟩
    · simp [result, eq_comm]
    · have hlength : ∀ x, upper ++ [extra, bottom] ≠ [x] := fun x hx => by
        have := congrArg List.length hx
        simp at this
      simp [result, hlength]

end ExactCalculator
