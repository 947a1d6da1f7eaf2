import ExactCalculator.Proofs.Decimal.Written
import ExactCalculator.Proofs.Postorder
import ExactCalculator.Proofs.Run.Invariant

/-!
Where operands come from. Every operand of a run is computed by a tree of applications. From the
oldest operand to the newest, the literals of these trees are the numbers read so far, and their
applications are the folds in the order in which they were made (`State.grown_invariant`). So the
span of an operand begins with the first of its numbers and ends with the last, whether the text is
an expression or not.
-/
namespace ExactCalculator

/-- A tree of applications computes an operand. -/
inductive Computed : Expression → Operand → Prop
  | literal {t : Text} {value : Decimal} (h : Decimal.ofLiteral t = .ok value) (offset : Nat) :
    Computed (.literal t offset) ⟨value, .ofText offset t⟩
  | binary {a b : Expression} {x y : Operand} {op : Operator} {value : Decimal}
    (ha : Computed a x) (hb : Computed b y) (h : op.apply x.value y.value = .ok value)
    (offset : Nat) : Computed (.binary op offset a b) ⟨value, x.span.join y.span⟩

theorem Computed.span {e : Expression} {x : Operand} (h : Computed e x) : x.span = e.span := by
  induction h with
  | literal h offset => rfl
  | binary ha hb h offset iha ihb => rw [Expression.span, iha, ihb]

/-- What a tree computes step by step is what the arithmetic makes of it. -/
theorem Computed.holds {e : Expression} {x : Operand} (h : Computed e x) : x.Holds e := by
  induction h with
  | literal h offset =>
    obtain ⟨-, rfl⟩ := Decimal.ofLiteral_eq_ok_iff.mp h
    exact ⟨rfl, Text.toRat_literalDecimal _, rfl⟩
  | binary ha hb h offset iha ihb =>
    -- The application gave a value, so it was no division by zero.
    obtain ⟨-, -, herror⟩ | ⟨-, d, hok, hd⟩ := iha.apply_cases ihb _ offset
    · rw [h] at herror
      cases herror
    · rw [h] at hok
      cases hok
      exact hd

/-- A bench with the trees that its operands were computed from, the newest first. -/
structure Bench.Grown (b : Bench) (forest : List Expression) (numbers : List Item) : Prop where
  computed : List.Forall₂ Computed forest b.operands
  leaves : forest.reverse.flatMap Expression.leaves = numbers
  operations : List.Forall₂ Fold.Applies b.folds.reverse
    (forest.reverse.flatMap Expression.operations)

namespace Bench

/-- A fold joins the two newest trees, and it is noted with the operands that they computed. -/
theorem computed_fold {b after : Bench} {forest : List Expression}
    (hforest : List.Forall₂ Computed forest b.operands) {op : Operator} {offset : Nat}
    (h : b.fold op offset = .ok after) :
    ∃ r l rest x y, forest = r :: l :: rest ∧ Computed l x ∧ Computed r y ∧
      List.Forall₂ Computed (.binary op offset l r :: rest) after.operands ∧
      after.folds = ⟨op, offset, x, y⟩ :: b.folds := by
  obtain ⟨right, left, below, value, hoperands, happly, rfl⟩ := fold_eq_ok h
  rw [hoperands] at hforest
  cases hforest with
  | @cons r _ _ _ hr hrest =>
    cases hrest with
    | @cons l _ rest _ hl hrest =>
      exact ⟨r, l, rest, left, right, rfl, hl, hr, .cons (.binary hl hr happly offset) hrest, rfl⟩

theorem Grown.push {b : Bench} {forest : List Expression} {numbers : List Item}
    (hb : b.Grown forest numbers) {w : Text} {value : Decimal}
    (hw : Decimal.ofLiteral w = .ok value) (offset : Nat) :
    (b.push ⟨value, .ofText offset w⟩).Grown (.literal w offset :: forest)
      (numbers ++ [⟨.run w, offset⟩]) := by
  refine ⟨.cons (.literal hw offset) hb.computed, ?_, ?_⟩
  · rw [List.reverse_cons, List.flatMap_append, List.flatMap_singleton, hb.leaves]
    rfl
  · rw [List.reverse_cons, List.flatMap_append, List.flatMap_singleton, Expression.operations,
      List.append_nil]
    exact hb.operations

/-- The tree that a fold makes comes last among the applications, as the fold among the folds. -/
theorem Grown.fold {b after : Bench} {forest : List Expression} {numbers : List Item}
    (hb : b.Grown forest numbers) {op : Operator} {offset : Nat}
    (h : b.fold op offset = .ok after) : ∃ forest, after.Grown forest numbers := by
  obtain ⟨r, l, rest, x, y, rfl, hx, hy, hafter, hfolds⟩ := computed_fold hb.computed h
  refine ⟨.binary op offset l r :: rest, hafter, ?_, ?_⟩
  · rw [← hb.leaves]
    simp only [List.reverse_cons, List.flatMap_append, List.flatMap_singleton,
      Expression.leaves, List.append_assoc]
  · have hall := List.rel_append hb.operations
      (.cons (Fold.Applies.root hx.holds hy.holds op offset) .nil)
    rw [hfolds, List.reverse_cons]
    simpa only [List.reverse_cons, List.flatMap_append, List.flatMap_singleton,
      Expression.operations, List.append_assoc] using hall

end Bench

namespace State

/-- A number is a tree of its own, and no other token is a literal of a tree. -/
theorem grown_invariant :
    Invariant fun items s => ∃ forest, s.bench.Grown forest (items.filter Item.isNumber) where
  start := ⟨[], .nil, rfl, .nil⟩
  number hs hvalue offset := by
    obtain ⟨forest, hb⟩ := hs
    rw [List.filter_append, List.filter_cons_of_pos (Item.isNumber_run hvalue offset),
      List.filter_nil]
    exact ⟨_, hb.push hvalue offset⟩
  opening hs offset := by
    rw [List.filter_append, List.filter_cons_of_neg (by simp [Item.isNumber_opening]),
      List.filter_nil, List.append_nil]
    exact hs
  closing hs offset := by
    rw [List.filter_append, List.filter_cons_of_neg (by simp [Item.isNumber_closing]),
      List.filter_nil, List.append_nil]
    exact hs
  operator hs op offset := by
    rw [List.filter_append, List.filter_cons_of_neg (by simp [Item.isNumber_symbol]),
      List.filter_nil, List.append_nil]
    exact hs
  fold hs h := by
    obtain ⟨forest, hb⟩ := hs
    exact hb.fold h

/-- The operand that a text comes to reaches from its first number to its last. -/
theorem span_of_endGroup {t : Text} {x : Operand} {folds : List Fold}
    (h : start.readAll t.items >>= endGroup = .ok ⟨[], ⟨[x], folds⟩⟩) :
    ∃ first ∈ t.numbers.head?, ∃ last ∈ t.numbers.getLast?, x.span = first.span.join last.span := by
  obtain ⟨s, hread, hend⟩ := bind_eq_ok.mp h
  obtain ⟨forest, hb⟩ := grown_invariant.unwind (grown_invariant.state hread) hend
  have hleaves := hb.leaves
  cases hb.computed with
  | @cons e _ _ _ he hrest =>
    cases hrest
    rw [List.reverse_singleton, List.flatMap_singleton] at hleaves
    have hspan := e.span_eq_of_leaves
    rw [hleaves, ← he.span] at hspan
    exact hspan

end State
end ExactCalculator
