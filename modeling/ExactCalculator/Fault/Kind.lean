import ExactCalculator.Text.Basic

/-!
The seven kinds of fault, their names, and the one among them that is a matter of arithmetic and
not of form. A name determines its kind.
-/
namespace ExactCalculator

inductive FaultKind where
  | invalidCharacter
  | malformedLiteral
  | unmatchedParen
  | missingOperand
  | danglingOperand
  | emptyExpression
  | divisionByZero
  deriving DecidableEq, Repr

namespace FaultKind

/-- Every kind, in the order in which kinds are numbered. -/
def all : List FaultKind :=
  [invalidCharacter, malformedLiteral, unmatchedParen, missingOperand, danglingOperand,
    emptyExpression, divisionByZero]

def name : FaultKind → String
  | invalidCharacter => "invalid-character"
  | malformedLiteral => "malformed-literal"
  | unmatchedParen => "unmatched-paren"
  | missingOperand => "missing-operand"
  | danglingOperand => "dangling-operand"
  | emptyExpression => "empty-expression"
  | divisionByZero => "division-by-zero"

/-- The name under which diagnostics list a kind. -/
def code : FaultKind → String
  | invalidCharacter => "decimal_eval::invalid_character"
  | malformedLiteral => "decimal_eval::malformed_literal"
  | unmatchedParen => "decimal_eval::unmatched_paren"
  | missingOperand => "decimal_eval::missing_operand"
  | danglingOperand => "decimal_eval::dangling_operand"
  | emptyExpression => "decimal_eval::empty_expression"
  | divisionByZero => "decimal_eval::division_by_zero"

def index (k : FaultKind) : Nat := all.idxOf k

/-- Whether the expression is well formed and only its value is missing. -/
def isArithmetic : FaultKind → Bool
  | divisionByZero => true
  | _ => false

/-- The kind of exactly this name. -/
def ofName? (t : Text) : Option FaultKind := all.find? fun k => k.name.toList == t

@[simp] theorem ofName?_name (k : FaultKind) : ofName? k.name.toList = some k := by
  cases k <;> decide

theorem ofName?_eq_some_iff {t : Text} {k : FaultKind} :
    ofName? t = some k ↔ t = k.name.toList := by
  constructor
  · intro h
    have := List.find?_some h
    exact (beq_iff_eq.mp this).symm
  · rintro rfl
    exact ofName?_name k

end FaultKind

def unknownKindMessage (t : Text) : String := s!"unknown error kind `{String.ofList t}`"

end ExactCalculator
