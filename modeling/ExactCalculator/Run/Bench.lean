import ExactCalculator.Fault.Basic

/-!
The bench of a run: the values that wait for an operator, and a list of the operators applied so
far. Applying an operator takes the two newest values, the newer one as the right operand, and
puts back one value whose range reaches from the left operand's to the right operand's.
-/
namespace ExactCalculator

structure Operand where
  value : Decimal
  span : Span
  deriving DecidableEq, Repr

structure Fold where
  op : Operator
  offset : Nat
  left : Operand
  right : Operand
  deriving DecidableEq, Repr

structure Bench where
  /-- The newest operand first. -/
  operands : List Operand
  /-- The latest fold first. -/
  folds : List Fold
  deriving DecidableEq, Repr

/-- A fault that ends a run, and the folds up to it, the latest first. -/
structure Halt where
  fault : Fault
  folds : List Fold
  deriving DecidableEq, Repr

namespace Bench

def empty : Bench := ⟨[], []⟩

def push (b : Bench) (x : Operand) : Bench := ⟨x :: b.operands, b.folds⟩

def halt (b : Bench) (fault : Fault) : Halt := ⟨fault, b.folds⟩

/-- Applies the operator that stands at the given byte. With fewer than two operands nothing is
applied; a division by zero is applied and then fails. -/
def fold (b : Bench) (op : Operator) (offset : Nat) : Except Halt Bench :=
  match b.operands with
  | right :: left :: below =>
    let folds := ⟨op, offset, left, right⟩ :: b.folds
    match op.apply left.value right.value with
    | .ok value => .ok ⟨⟨value, left.span.join right.span⟩ :: below, folds⟩
    | .error .divisionByZero => .error ⟨⟨.divisionByZero, right.span⟩, folds⟩
  | _ => .error (b.halt ⟨.missingOperand op, .single offset⟩)

@[simp] theorem operands_push (b : Bench) (x : Operand) :
    (b.push x).operands = x :: b.operands := rfl
@[simp] theorem folds_push (b : Bench) (x : Operand) : (b.push x).folds = b.folds := rfl

/-- A fold that succeeds leaves one operand fewer. -/
theorem length_operands_of_fold {b after : Bench} {op : Operator} {offset : Nat}
    (h : b.fold op offset = .ok after) :
    after.operands.length + 1 = b.operands.length := by
  unfold fold at h
  split at h
  next right left below hb =>
    dsimp only at h
    split at h
    next value hv =>
      cases h
      simp [hb]
    next => cases h
  next => cases h

/-- A fold that succeeds is noted once. -/
theorem length_folds_of_fold {b after : Bench} {op : Operator} {offset : Nat}
    (h : b.fold op offset = .ok after) : after.folds.length = b.folds.length + 1 := by
  unfold fold at h
  split at h
  next right left below hb =>
    dsimp only at h
    split at h
    next value hv =>
      cases h
      simp
    next => cases h
  next => cases h

end Bench
end ExactCalculator
