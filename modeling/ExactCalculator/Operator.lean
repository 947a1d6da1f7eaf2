import ExactCalculator.Decimal.Rounding

/-!
The four operators: their symbols, how tightly they bind, and what they compute. Addition,
subtraction and multiplication are exact; a quotient keeps `divisionScale` places.
-/
namespace ExactCalculator

inductive Operator where
  | plus | minus | star | slash
  deriving DecidableEq, Repr

inductive ArithmeticError where
  | divisionByZero
  deriving DecidableEq, Repr

def ArithmeticError.message : ArithmeticError → String
  | .divisionByZero => "Cannot divide by zero"

/-- The number of places that a quotient keeps. -/
def divisionScale : Nat := 4

namespace Operator

def symbol : Operator → Char
  | .plus => '+'
  | .minus => '-'
  | .star => '*'
  | .slash => '/'

def ofSymbol? : Char → Option Operator
  | '+' => some .plus
  | '-' => some .minus
  | '*' => some .star
  | '/' => some .slash
  | _ => none

@[simp] theorem ofSymbol?_symbol (op : Operator) : ofSymbol? op.symbol = some op := by
  cases op <;> rfl

/-- A character names at most one operator, and that operator is written by it. -/
theorem ofSymbol?_eq_some_iff {c : Char} {op : Operator} :
    ofSymbol? c = some op ↔ c = op.symbol := by
  constructor
  · intro h
    unfold ofSymbol? at h
    split at h <;> cases h <;> rfl
  · rintro rfl
    exact ofSymbol?_symbol op

/-- How tightly an operator binds; the larger number binds first. -/
def precedence : Operator → Nat
  | .plus | .minus => 1
  | .star | .slash => 2

def apply (op : Operator) (a b : Decimal) : Except ArithmeticError Decimal :=
  match op with
  | .plus => .ok (a + b)
  | .minus => .ok (a - b)
  | .star => .ok (a * b)
  | .slash =>
    match a.divRounded? b divisionScale with
    | some q => .ok q
    | none => .error .divisionByZero

end Operator
end ExactCalculator
