import ExactCalculator.Proofs.Run.Forest
import ExactCalculator.Proofs.Run.Frame

/-!
Two texts in parentheses with an operator between them. The whole has the value that the operator
computes from the values of the parts. These were normalized at the end of their own runs, and in
the larger run nothing is normalized before the operator is applied, but no operator can tell
(`Likeness.sameWorth`). A zero divisor is blamed from its first number to its last.
-/
namespace ExactCalculator

/-- Both parts are read as one operand each, and at the end of the text the operator joins them. -/
theorem Text.state_bind_finish_of_groups {s t : Text} {x y : Operand} {folds folds' : List Fold}
    (hs : State.start.readAll s.items >>= State.endGroup = .ok ⟨[], ⟨[x], folds⟩⟩)
    (ht : State.start.readAll t.items >>= State.endGroup = .ok ⟨[], ⟨[y], folds'⟩⟩)
    (op : Operator) :
    ∃ left right noted, left.value = x.value ∧ right.value = y.value ∧
      right.span = y.span.shift (byteLength s + 4) ∧
      (s.group ++ op.symbol :: t.group).state >>= State.finish =
        Bench.fold ⟨[right, left], noted⟩ op (byteLength s + 2) := by
  obtain ⟨afterLeft, hleft⟩ := State.readAll_itemsAt_group hs .start 0
  obtain ⟨afterRight, hright⟩ := State.readAll_itemsAt_group ht
    ⟨[.operator op (byteLength s + 2)], ⟨[x.shift 1], afterLeft⟩⟩ (byteLength s + 3)
  refine ⟨x.shift 1, y.shift (byteLength s + 4), afterRight, rfl, rfl, rfl, ?_⟩
  rw [state, items_eq_itemsAt, itemsAt_symbol, byteLength_group, Nat.zero_add,
    State.readAll_append, hleft, ok_bind, State.readAll_cons, State.read_symbol]
  change (State.readAll ⟨[.operator op (byteLength s + 2)], ⟨[x.shift 1], afterLeft⟩⟩
    (itemsAt (byteLength s + 3) t.group) >>= State.finish) = _
  rw [hright, ok_bind, State.finish_eq]
  change State.unwind _ [.operator op _] _ >>= _ = _
  rw [State.unwind_operator rfl]
  cases Bench.fold ⟨[y.shift (byteLength s + 4), x.shift 1], afterRight⟩ op (byteLength s + 2) with
  | ok after => rfl
  | error halt => rfl

/-- An operator between two texts in parentheses computes its result from their values. A zero
divisor is blamed from its first number to its last one. -/
theorem evaluate_compound {s t : Text} {v w : Decimal} (hs : evaluate s = .ok v)
    (ht : evaluate t = .ok w) (op : Operator) :
    (∀ d, op.apply v w = .ok d →
      evaluate (s.group ++ op.symbol :: t.group) = .ok d.normalized) ∧
    (op = .slash → w.toRat = 0 →
      ∃ first ∈ t.numbers.head?, ∃ last ∈ t.numbers.getLast?,
        evaluate (s.group ++ op.symbol :: t.group) =
          .error ⟨.divisionByZero,
            (first.span.join last.span).shift (Text.byteLength s + 4)⟩) := by
  obtain ⟨x, folds, hx, rfl⟩ := evaluate_eq_ok hs
  obtain ⟨y, folds', hy, rfl⟩ := evaluate_eq_ok ht
  obtain ⟨left, right, noted, hleft, hright, hspan, hrun⟩ :=
    Text.state_bind_finish_of_groups hx hy op
  rw [evaluate_eq, hrun]
  constructor
  · intro d hd
    have happly := Likeness.sameWorth.apply op _ _ _ _ left.value.toRat_normalized
      right.value.toRat_normalized
    rw [hleft, hright, hd, ← hleft, ← hright] at happly
    generalize hresult : op.apply left.value right.value = r at happly
    cases happly with
    | ok hworth =>
      rw [Bench.fold_of_apply_ok hresult]
      exact congrArg Except.ok (Likeness.sameWorth.normalized _ _ hworth).symm
  · intro hop hzero
    rw [Decimal.toRat_normalized, ← hright] at hzero
    obtain ⟨first, hfirst, last, hlast, hjoin⟩ := State.span_of_endGroup hy
    refine ⟨first, hfirst, last, hlast, ?_⟩
    obtain ⟨-, -, happly⟩ | ⟨hnot, -⟩ := op.apply_cases left.value right.value
    · rw [Bench.fold_of_apply_error happly, hspan, hjoin]
      rfl
    · exact absurd ⟨hop, hzero⟩ hnot

/-- In `(1.50)*(2)` zeros at the end go, and in `(1.50)/(3 3-)` both literals of the divisor are
blamed. -/
theorem evaluate_compound_instances :
    evaluate ['(', '1', '.', '5', '0', ')', '*', '(', '2', ')'] = .ok ⟨3, 0⟩ ∧
    evaluate ['(', '1', '.', '5', '0', ')', '/', '(', '3', ' ', '3', '-', ')'] =
      .error ⟨.divisionByZero, ⟨8, 11⟩⟩ := by
  have hleft : evaluate ['1', '.', '5', '0'] = .ok ⟨15, 1⟩ := by decide +kernel
  have htwo : evaluate ['2'] = .ok ⟨2, 0⟩ := by decide +kernel
  have hzero : evaluate ['3', ' ', '3', '-'] = .ok ⟨0, 0⟩ := by decide +kernel
  refine ⟨(evaluate_compound hleft htwo .star).1 ⟨30, 1⟩ (by decide +kernel), ?_⟩
  obtain ⟨first, hfirst, last, hlast, h⟩ :=
    (evaluate_compound hleft hzero .slash).2 rfl (by simp [Decimal.toRat])
  have hnumbers : Text.numbers ['3', ' ', '3', '-'] = [⟨.run ['3'], 0⟩, ⟨.run ['3'], 2⟩] := by
    decide +kernel
  rw [hnumbers] at hfirst hlast
  cases hfirst
  cases hlast
  exact h

end ExactCalculator
