import ExactCalculator.Proofs.Run.Blame
import ExactCalculator.Proofs.Run.Likeness

/-!
A text in parentheses comes to what the text alone comes to, one byte further on. Above an open
parenthesis a run does what it does on an empty stack, faults included, as long as it meets no
closing parenthesis without a partner (`readAll_inGroup`). At the end the closing parenthesis folds
what otherwise the end of the text would fold.
-/
namespace ExactCalculator

/-- The same state inside of one more parenthesis, which is open below everything else. -/
def State.inGroup (offset : Nat) (s : State) : State := ⟨s.pending ++ [.paren offset], s.bench⟩

/-- If this fails, then not because of a parenthesis without a partner. -/
def Paired {α : Type} (r : Except Halt α) : Prop :=
  ∀ halt, r = .error halt → halt.fault.kind ≠ .unmatchedParen

theorem Paired.of_bind {α β : Type} {r : Except Halt α} {f : α → Except Halt β}
    (h : Paired (r >>= f)) : Paired r := by
  intro halt hr
  subst hr
  exact h halt rfl

namespace State

variable (offset : Nat)

theorem unwind_inGroup (among : Operator → Bool) (pending : List Pending) (bench : Bench) :
    unwind among (pending ++ [.paren offset]) bench =
      unwind among pending bench >>= fun s => .ok (s.inGroup offset) := by
  induction pending generalizing bench with
  | nil => rfl
  | cons p below ih =>
    cases p with
    | paren m => rfl
    | operator op m =>
      rw [List.cons_append]
      by_cases hop : among op = true
      · rw [unwind_operator hop, unwind_operator hop]
        cases bench.fold op m with
        | ok after => exact ih after
        | error halt => rfl
      · rw [unwind_operator_of_not_among (by simpa using hop),
          unwind_operator_of_not_among (by simpa using hop)]
        rfl

/-- One item: only a closing parenthesis that the state has no partner for could tell. -/
theorem read_inGroup {s : State} {i : Item} (h : Paired (s.read i)) :
    (s.inGroup offset).read i = s.read i >>= fun s => .ok (s.inGroup offset) := by
  obtain ⟨l, m⟩ := i
  obtain ⟨w, value, rfl, hvalue⟩ | rfl | rfl | ⟨op, rfl⟩ | ⟨cause, hcause⟩ := l.sorts
  · rw [read_run hvalue, read_run hvalue]
    rfl
  · rw [read_opening, read_opening]
    rfl
  · rw [read_closing] at h ⊢
    rw [read_closing, endGroup, inGroup, unwind_inGroup]
    change (s.endGroup >>= _) >>= _ = _
    cases hend : s.endGroup with
    | error halt => rfl
    | ok ended =>
      rw [hend, ok_bind] at h
      cases hdrop : ended.dropParen m with
      | error halt => exact absurd (congrArg (·.fault.kind) (dropParen_eq_error hdrop)) (h _ hdrop)
      | ok after =>
        obtain ⟨n, rfl⟩ := dropParen_eq_ok hdrop
        rfl
  · rw [read_symbol, read_symbol, giveWay, inGroup, unwind_inGroup]
    change (s.giveWay op >>= _) >>= _ = _
    cases s.giveWay op with
    | error halt => rfl
    | ok given => rfl
  · rw [read_of_error hcause, read_of_error hcause]
    rfl

/-- Any number of items. -/
theorem readAll_inGroup {items : List Item} {s : State} (h : Paired (s.readAll items)) :
    (s.inGroup offset).readAll items = s.readAll items >>= fun s => .ok (s.inGroup offset) := by
  induction items generalizing s with
  | nil => rfl
  | cons i items ih =>
    rw [readAll_cons] at h
    rw [readAll_cons, readAll_cons, read_inGroup offset h.of_bind]
    cases hread : s.read i with
    | error halt => rfl
    | ok next =>
      rw [hread] at h
      exact ih h

/-- The closing parenthesis of a group does what otherwise the end of the text does. -/
theorem finish_inGroup {s : State} (h : Paired s.finish) (close : Nat) :
    ((s.inGroup offset).endGroup >>= dropParen close) >>= finish = s.finish := by
  rw [finish_eq] at h ⊢
  rw [endGroup, inGroup, unwind_inGroup]
  change ((s.endGroup >>= _) >>= _) >>= _ = _
  cases hend : s.endGroup with
  | error halt => rfl
  | ok ended =>
    rw [hend, ok_bind] at h
    cases hclosed : ended.allClosed with
    | error halt =>
      obtain ⟨p, below, -, rfl⟩ := allClosed_eq_error hclosed
      exact absurd rfl (h _ hclosed)
    | ok bench =>
      cases allClosed_eq_ok hclosed
      rfl

/-- Items in parentheses come to what the items come to. -/
theorem readAll_group_bind_finish {items : List Item}
    (h : Paired (start.readAll items >>= finish)) (close : Nat) :
    start.readAll (⟨.mark '(', offset⟩ :: (items ++ [⟨.mark ')', close⟩])) >>= finish =
      start.readAll items >>= finish := by
  rw [readAll_group]
  change (((start.inGroup offset).readAll items >>= endGroup) >>= dropParen close) >>= finish = _
  rw [readAll_inGroup offset h.of_bind]
  cases hread : start.readAll items with
  | error halt => rfl
  | ok s =>
    rw [hread, ok_bind] at h
    exact finish_inGroup offset h close

end State

/-- A text and the same text in parentheses come to alike outcomes. -/
theorem outcomes_group {e : Text} (h : ∀ f, evaluate e = .error f → f.kind ≠ .unmatchedParen) :
    (Likeness.shifted 1).Outcomes (Text.byteLength e) (Text.byteLength e.group) (evaluate e)
      (evaluate e.group) := by
  have halike := (Likeness.readAll_alike (Likeness.items_shifted 1 e.items) (s := .start)
    (t := .start) ⟨.nil, .nil, .nil⟩).bind fun s t hst => Likeness.finish_alike hst
  have hpaired : Paired (State.start.readAll (e.items.map (Item.shift · 1)) >>= State.finish) := by
    intro halt hhalt
    rw [hhalt] at halike
    generalize hrun : State.start.readAll e.items >>= State.finish = r at halike
    cases halike with
    | @error first _ hfaults =>
      have hfirst : evaluate e = .error first.fault := by
        rw [evaluate_eq, Text.state, hrun]
        rfl
      exact fun hkind => h _ hfirst ((congrArg Cause.kind hfaults.1.1).trans hkind)
  have hgroup : e.group.state >>= State.finish =
      State.start.readAll (e.items.map (Item.shift · 1)) >>= State.finish := by
    rw [Text.state, Text.items_eq_itemsAt, Text.itemsAt_group, Text.itemsAt_eq_map e]
    exact State.readAll_group_bind_finish 0 hpaired _
  rw [evaluate_eq, evaluate_eq, hgroup]
  exact Likeness.resultOf_alike halike _ _

/-- A text in parentheses has the value of the text, or its fault one byte further on; where the
text has nothing to evaluate, all of it is blamed with its parentheses. -/
theorem evaluate_group {e : Text} (h : ∀ f, evaluate e = .error f → f.kind ≠ .unmatchedParen) :
    (∀ v, evaluate e = .ok v → evaluate e.group = .ok v) ∧
    ∀ f, evaluate e = .error f →
      (f.kind ≠ .emptyExpression → evaluate e.group = .error (f.shift 1)) ∧
      (f.kind = .emptyExpression →
        evaluate e.group = .error ⟨.emptyExpression, ⟨0, Text.byteLength e.group⟩⟩) := by
  have houtcomes := outcomes_group h
  generalize hgroup : evaluate e.group = r at houtcomes
  constructor
  · intro v hv
    rw [hv] at houtcomes
    cases houtcomes with
    | ok hvalue => rw [hvalue]
  · intro f hf
    rw [hf] at houtcomes
    cases houtcomes with
    | @error _ g hfaults =>
      constructor
      · intro hkind
        obtain ⟨hcause, hspans⟩ | ⟨rfl, -⟩ := hfaults
        · rw [Fault.shift, ← Likeness.spans_shifted_iff.mp hspans, hcause]
        · exact absurd rfl hkind
      · intro hkind
        have hg : g.kind = .emptyExpression := by
          obtain ⟨hcause, -⟩ | ⟨-, rfl⟩ := hfaults
          · exact (congrArg Cause.kind hcause).symm.trans hkind
          · rfl
        rw [eq_of_kind_eq_emptyExpression hgroup hg]

/-- In `7/(2-2)` the divisor is blamed, and in parentheses it is blamed one byte further on. -/
theorem evaluate_group_zero_divisor :
    evaluate ['(', '7', '/', '(', '2', '-', '2', ')', ')'] =
      .error ⟨.divisionByZero, ⟨4, 7⟩⟩ := by
  have he : evaluate ['7', '/', '(', '2', '-', '2', ')'] = .error ⟨.divisionByZero, ⟨3, 6⟩⟩ := by
    decide +kernel
  have hkind : ∀ f, evaluate ['7', '/', '(', '2', '-', '2', ')'] = .error f →
      f.kind ≠ .unmatchedParen := by
    intro f hf
    rw [he] at hf
    cases hf
    exact FaultKind.noConfusion
  exact ((evaluate_group hkind).2 _ he).1 FaultKind.noConfusion

/-- A parenthesis without a partner can find one in the parentheses around it: in `+(` it is blamed,
and in `(+()` the operator is. -/
example : evaluate ['+', '('] = .error ⟨.unmatchedParen .opening, ⟨1, 2⟩⟩ ∧
    evaluate (Text.group ['+', '(']) = .error ⟨.missingOperand .plus, ⟨1, 2⟩⟩ := by
  decide +kernel

end ExactCalculator
