import ExactCalculator.CaseFile.Basic
import ExactCalculator.Run.Outcome

/-!
Checking a case: its expression is evaluated and the outcome held against the expectation. A value
is as expected when it is the same number, a fault when it is of the same kind.
-/
namespace ExactCalculator

inductive Verdict where
  | correct
  | wrongValue (got : Decimal)
  | unexpectedFault (got : Fault)
  | missingFault (got : Decimal)
  | wrongFault (got : Fault)
  deriving DecidableEq, Repr

def Verdict.isCorrect : Verdict → Bool
  | .correct => true
  | _ => false

def Expected.judge : Expected → Except Fault Decimal → Verdict
  | .value want, .ok got => if got.sameValue want then .correct else .wrongValue got
  | .value _, .error got => .unexpectedFault got
  | .fault _, .ok got => .missingFault got
  | .fault k, .error got => if got.kind = k then .correct else .wrongFault got

def Case.check (c : Case) : Verdict := c.expected.judge (evaluate c.expression)

def Case.describe (c : Case) (v : Verdict) : String :=
  let claim := s!"{String.ofList c.expression} should be evaluated to {c.expected.render}"
  match v with
  | .correct => "CORRECT!"
  | .wrongValue got | .missingFault got => s!"{claim}, but was {got}"
  | .unexpectedFault got | .wrongFault got =>
    s!"{claim}, but failed with !{got.kind.name}: {got.message}"

/-- A value is right exactly when the same number was expected. -/
theorem Expected.judge_ok_isCorrect_iff (x : Expected) (got : Decimal) :
    (x.judge (.ok got)).isCorrect = true ↔ ∃ want, x = .value want ∧ got.sameValue want = true := by
  cases x with
  | value want =>
    by_cases h : got.sameValue want = true
    · simp [judge, h, Verdict.isCorrect]
    · simp [judge, h, Verdict.isCorrect]
  | fault k => simp [judge, Verdict.isCorrect]

/-- A fault is right exactly when its kind was expected. -/
theorem Expected.judge_error_isCorrect_iff (x : Expected) (got : Fault) :
    (x.judge (.error got)).isCorrect = true ↔ x = .fault got.kind := by
  cases x with
  | value want => simp [judge, Verdict.isCorrect]
  | fault k =>
    by_cases h : got.kind = k
    · simp [judge, h, Verdict.isCorrect]
    · simp [judge, h, Verdict.isCorrect, Ne.symm h]

end ExactCalculator
