import ExactCalculator.Decimal.Literal
import ExactCalculator.Limits

/-!
A desk calculator in postfix order: each command works on a stack of decimals, top first, and
gives an answer. A command that finds too few values, or a zero divisor, leaves the stack as it
was. A product or a quotient whose scales do not add up to a word stops the machine.
-/
namespace ExactCalculator.Desk

/-- The values on the desk, the newest first. -/
abbrev Stack := List Decimal

inductive Command where
  | literal (t : Text)
  | push (d : Decimal)
  | negate
  | normalize
  | add
  | subtract
  | multiply
  | divide (scale : Nat)
  | apply (op : Operator)
  | compare
  | isZero
  | duplicate
  | swap
  | drop
  | sort
  deriving DecidableEq, Repr

inductive Answer where
  | done
  | underflow
  | badLiteral (reason : LiteralError)
  | noQuotient
  | badOperation (reason : ArithmeticError)
  | order (o : Ordering)
  | zero (isZero : Bool)
  | sorted (ascending : List Decimal)
  deriving DecidableEq, Repr

/-- The values in ascending order; equal ones keep the order in which they stood. -/
def sortAscending (ds : List Decimal) : List Decimal :=
  ds.mergeSort fun a b => (Ord.compare a b).isLE

/-- Replaces the upper two values by one result; there is no answer if the machine stops. -/
def combine? (f : Decimal → Decimal → Option Decimal) : Stack → Option (Answer × Stack)
  | b :: a :: below => (f a b).map fun d => (.done, d :: below)
  | stack => some (.underflow, stack)

def change (f : Decimal → Decimal) : Stack → Answer × Stack
  | a :: below => (.done, f a :: below)
  | stack => (.underflow, stack)

def divide? (scale : Nat) : Stack → Option (Answer × Stack)
  | b :: a :: below => (a.divRoundedBelow? scaleLimit b scale).map fun
    | some q => (.done, q :: below)
    | none => (.noQuotient, b :: a :: below)
  | stack => some (.underflow, stack)

def operate? (op : Operator) : Stack → Option (Answer × Stack)
  | b :: a :: below => (op.applyBelow? scaleLimit a b).map fun
    | .ok d => (.done, d :: below)
    | .error reason => (.badOperation reason, b :: a :: below)
  | stack => some (.underflow, stack)

def step? : Command → Stack → Option (Answer × Stack)
  | .literal t, stack =>
    match Decimal.ofLiteral t with
    | .ok d => some (.done, d :: stack)
    | .error reason => some (.badLiteral reason, stack)
  | .push d, stack => some (.done, d :: stack)
  | .negate, stack => some (change (- ·) stack)
  | .normalize, stack => some (change Decimal.normalized stack)
  | .add, stack => combine? (Decimal.addBelow? scaleLimit) stack
  | .subtract, stack => combine? (Decimal.subBelow? scaleLimit) stack
  | .multiply, stack => combine? (Decimal.mulBelow? scaleLimit) stack
  | .divide scale, stack => divide? scale stack
  | .apply op, stack => operate? op stack
  | .compare, b :: a :: below => some (.order (Ord.compare a b), b :: a :: below)
  | .isZero, a :: below => some (.zero a.isZero, a :: below)
  | .duplicate, a :: below => some (.done, a :: a :: below)
  | .swap, b :: a :: below => some (.done, a :: b :: below)
  | .drop, _ :: below => some (.done, below)
  | .sort, stack =>
    let ascending := sortAscending stack.reverse
    some (.sorted ascending, ascending.reverse)
  | _, stack => some (.underflow, stack)

/-- The answers to a list of commands, each with the stack after it. A machine that stops has given
no answers. -/
def run? : Stack → List Command → Option (List (Answer × Stack))
  | _, [] => some []
  | stack, c :: cs => do
    let (answer, next) ← step? c stack
    let rest ← run? next cs
    return (answer, next) :: rest

end ExactCalculator.Desk
