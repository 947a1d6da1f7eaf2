import ExactCalculator.Proofs.Expression
import ExactCalculator.Proofs.Run.Steps

/-!
Trees on a bench. The operations of a tree stand in post-order, and on any bench they are folded in
this order, as far as to the first division by zero (`Expression.onBench_folds`). The operands of a
fold are worth what the subtrees are, and they have the scales that the arithmetic gave them: only
the value of a whole text is normalized.
-/
namespace ExactCalculator

/-- The elements up to the first one that meets a condition, which is the last of them. -/
def upToFirst {α : Type} (p : α → Bool) : List α → List α
  | [] => []
  | a :: as => if p a then [a] else a :: upToFirst p as

section

variable {α : Type} {p : α → Bool} {as : List α}

/-- Nothing behind an element that meets the condition counts. -/
theorem upToFirst_append_of_some {a : α} (h : as.find? p = some a) (bs : List α) :
    upToFirst p (as ++ bs) = upToFirst p as := by
  induction as with
  | nil => cases h
  | cons b as ih =>
    by_cases hb : p b = true
    · simp [upToFirst, hb]
    · rw [List.find?_cons_of_neg hb] at h
      simp [upToFirst, hb, ih h]

/-- Elements that do not meet the condition are all kept. -/
theorem upToFirst_append_of_none (h : as.find? p = none) (bs : List α) :
    upToFirst p (as ++ bs) = as ++ upToFirst p bs := by
  induction as with
  | nil => rfl
  | cons b as ih =>
    by_cases hb : p b = true
    · rw [List.find?_cons_of_pos hb] at h
      cases h
    · rw [List.find?_cons_of_neg hb] at h
      simp [upToFirst, hb, ih h]

theorem upToFirst_of_none (h : as.find? p = none) : upToFirst p as = as := by
  have hall := upToFirst_append_of_none h []
  rw [List.append_nil, upToFirst, List.append_nil] at hall
  exact hall

end

namespace Expression

/-- Pushes the literals and folds the operators of a tree, operands first. -/
def onBench : Expression → Bench → Except Halt Bench
  | literal t offset, b => .ok (b.push ⟨t.literalDecimal, .ofText offset t⟩)
  | binary op offset left right, b =>
    left.onBench b >>= fun b => right.onBench b >>= fun b => b.fold op offset

/-- The subtrees with an operator at the root, those of the left operand first, then those of the
right one, and the tree itself last. -/
def operations : Expression → List Expression
  | literal _ _ => []
  | binary op offset left right =>
    left.operations ++ right.operations ++ [binary op offset left right]

def divisor? : Expression → Option Expression
  | binary .slash _ _ right => some right
  | _ => none

def isZeroDivision : Expression → Bool
  | literal _ _ => false
  | binary op _ _ right => op = .slash ∧ right.value = 0

/-- What the arithmetic makes of a tree, with the scale that it comes to. -/
def decimal : Expression → Except ArithmeticError Decimal
  | literal t _ => .ok t.literalDecimal
  | binary op _ left right => do
    let a ← left.decimal
    let b ← right.decimal
    op.apply a b

/-- The divisors of a tree are those of its operations. -/
theorem divisors_eq (e : Expression) : e.divisors = e.operations.filterMap divisor? := by
  induction e with
  | literal t offset => rfl
  | binary op offset left right ihl ihr =>
    rw [divisors, operations, List.filterMap_append, List.filterMap_append, ← ihl, ← ihr]
    cases op <;> rfl

/-- The divisor of the first division by zero. -/
theorem zeroDivisor?_eq (e : Expression) :
    e.zeroDivisor? = (e.operations.find? isZeroDivision).bind divisor? := by
  have hzero : (fun e => (divisor? e).any fun d => decide (d.value = 0)) = isZeroDivision := by
    funext e
    cases e with
    | literal t offset => rfl
    | binary op offset left right => cases op <;> simp [divisor?, isZeroDivision]
  rw [zeroDivisor?, divisors_eq, List.find?_filterMap, hzero]

end Expression

structure Operand.Holds (x : Operand) (e : Expression) : Prop where
  decimal : e.decimal = .ok x.value
  value : x.value.toRat = e.value
  span : x.span = e.span

/-- A fold of the operator at the root of a tree, whose operands were computed from its subtrees. -/
inductive Fold.Applies : Fold → Expression → Prop
  | root {x y : Operand} {left right : Expression} (hx : x.Holds left) (hy : y.Holds right)
    (op : Operator) (offset : Nat) : Applies ⟨op, offset, x, y⟩ (.binary op offset left right)

/-- An operator between operands that were computed from trees divides by zero, or it computes from
the tree that they make with it. -/
theorem Operand.Holds.apply_cases {x y : Operand} {left right : Expression} (hx : x.Holds left)
    (hy : y.Holds right) (op : Operator) (offset : Nat) :
    ((Expression.binary op offset left right).isZeroDivision = true ∧ op = .slash ∧
      op.apply x.value y.value = .error .divisionByZero) ∨
    ((Expression.binary op offset left right).isZeroDivision = false ∧ ∃ d,
      op.apply x.value y.value = .ok d ∧
        Operand.Holds ⟨d, x.span.join y.span⟩ (.binary op offset left right)) := by
  obtain ⟨hop, hzero, happly⟩ | ⟨hnot, d, happly, hd⟩ := op.apply_cases x.value y.value
  · rw [hy.value] at hzero
    exact .inl ⟨by simp [Expression.isZeroDivision, hop, hzero], hop, happly⟩
  · rw [hy.value] at hnot
    refine .inr ⟨by simpa [Expression.isZeroDivision] using hnot, d, happly, ?_, ?_, ?_⟩
    · rw [Expression.decimal, hx.decimal, hy.decimal]
      exact happly
    · rw [hd, hx.value, hy.value, Expression.value]
    · rw [hx.span, hy.span, Expression.span]

namespace Expression

/-- On any bench the operations of a tree are folded in their order, as far as to the first
division by zero. -/
theorem onBench_folds (e : Expression) (b : Bench) :
    (e.operations.find? isZeroDivision = none ∧ ∃ x folds,
      e.onBench b = .ok ⟨x :: b.operands, folds.reverse ++ b.folds⟩ ∧ x.Holds e ∧
        List.Forall₂ Fold.Applies folds e.operations) ∨
    ∃ offset left divisor folds,
      e.operations.find? isZeroDivision = some (.binary .slash offset left divisor) ∧
      e.onBench b = .error ⟨⟨.divisionByZero, divisor.span⟩, folds.reverse ++ b.folds⟩ ∧
      List.Forall₂ Fold.Applies folds (upToFirst isZeroDivision e.operations) := by
  induction e generalizing b with
  | literal t offset =>
    exact .inl ⟨rfl, _, [], rfl, ⟨rfl, Text.toRat_literalDecimal t, rfl⟩, .nil⟩
  | binary op offset left right ihl ihr =>
    simp only [onBench, operations, List.append_assoc, List.find?_append]
    obtain ⟨hl, x, folds, hb, hx, hfolds⟩ | ⟨_, _, divisor, folds, hl, hb, hfolds⟩ := ihl b
    · rw [hb, ok_bind, upToFirst_append_of_none hl, hl, Option.none_or]
      obtain ⟨hr, y, more, hb', hy, hmore⟩ | ⟨_, _, divisor, more, hr, hb', hmore⟩ :=
        ihr ⟨x :: b.operands, folds.reverse ++ b.folds⟩
      · -- Both operands are there, so the operator is folded, whether that succeeds or not.
        have hall := List.rel_append hfolds
          (List.rel_append hmore (.cons (Fold.Applies.root hx hy op offset) .nil))
        have hnoted (f : Fold) : f :: (more.reverse ++ (folds.reverse ++ b.folds)) =
            (folds ++ (more ++ [f])).reverse ++ b.folds := by simp
        rw [hb', ok_bind, hr, Option.none_or, upToFirst_append_of_none hr]
        obtain ⟨hzero, rfl, happly⟩ | ⟨hzero, d, happly, hd⟩ := hx.apply_cases hy op offset
        · rw [Bench.fold_of_apply_error happly, hnoted, hy.span, List.find?_cons_of_pos hzero]
          refine .inr ⟨offset, left, right, _, rfl, rfl, ?_⟩
          simpa [upToFirst] using hall
        · rw [Bench.fold_of_apply_ok happly, hnoted, List.find?_cons_of_neg (by simp [hzero])]
          exact .inl ⟨rfl, _, _, rfl, hd, hall⟩
      · rw [hb', hr, Option.some_or, upToFirst_append_of_some hr]
        refine .inr ⟨_, _, divisor, folds ++ more, rfl, ?_, List.rel_append hfolds hmore⟩
        simp
    · rw [hb, hl, Option.some_or, upToFirst_append_of_some hl]
      exact .inr ⟨_, _, divisor, folds, rfl, rfl, hfolds⟩

end Expression
end ExactCalculator
