import ExactCalculator.Proofs.Places
import ExactCalculator.Proofs.Run.Blame

/-!
Nothing is lost in a run and nothing is done twice. Every operator read was applied or still waits
(`Tallies.operators`), and every number read is still there or was taken by an application, which
takes two and leaves one (`Tallies.numbers`). At the end of a run nothing waits, so each operator of
the text was applied exactly once (`folds_perm_operators`). A run that halts has applied none twice
(`Halts.subperm_operators`), and an operator that lacks an operand was not applied
(`Halts.missingOperand`).
-/
namespace ExactCalculator

def Item.isOperator (i : Item) : Bool :=
  match i.token with
  | .ok ⟨.operator _, _, _⟩ => true
  | _ => false

namespace Item

theorem isOperator_run {w : Text} {value : Decimal} (h : Decimal.ofLiteral w = .ok value)
    (offset : Nat) : (Item.mk (.run w) offset).isOperator = false := by
  rw [isOperator, token_run h]

theorem isOperator_opening (offset : Nat) : (Item.mk (.mark '(') offset).isOperator = false := rfl

theorem isOperator_closing (offset : Nat) : (Item.mk (.mark ')') offset).isOperator = false := rfl

theorem isOperator_symbol (op : Operator) (offset : Nat) :
    (Item.mk (.mark op.symbol) offset).isOperator = true := by
  rw [isOperator, token_symbol]

end Item

def Text.operators (t : Text) : List Item := t.items.filter Item.isOperator

def Fold.item (f : Fold) : Item := ⟨.mark f.op.symbol, f.offset⟩

def waitingOperators : List Pending → List Item
  | [] => []
  | .paren _ :: below => waitingOperators below
  | .operator op offset :: below => ⟨.mark op.symbol, offset⟩ :: waitingOperators below

@[simp] theorem waitingOperators_nil : waitingOperators [] = [] := rfl
@[simp] theorem waitingOperators_paren (offset : Nat) (below : List Pending) :
    waitingOperators (.paren offset :: below) = waitingOperators below := rfl
@[simp] theorem waitingOperators_operator (op : Operator) (offset : Nat) (below : List Pending) :
    waitingOperators (.operator op offset :: below) =
      ⟨.mark op.symbol, offset⟩ :: waitingOperators below := rfl

namespace State

/-- The state after these items, by the count of its operators and operands. -/
structure Tallies (items : List Item) (s : State) : Prop where
  operators : (s.bench.folds.map Fold.item ++ waitingOperators s.pending).Perm
    (items.filter Item.isOperator)
  numbers : s.bench.operands.length + s.bench.folds.length = (items.filter Item.isNumber).length

/-- Applying the operator on top takes it from what waits to what is done. -/
theorem Tallies.fold {items : List Item} {op : Operator} {offset : Nat} {below : List Pending}
    {b after : Bench} (hs : Tallies items ⟨.operator op offset :: below, b⟩)
    (h : b.fold op offset = .ok after) : Tallies items ⟨below, after⟩ := by
  constructor
  · obtain ⟨right, left, rest, value, -, -, rfl⟩ := Bench.fold_eq_ok h
    exact List.perm_middle.symm.trans hs.operators
  · have hnumbers := hs.numbers
    have hoperands := Bench.length_operands_of_fold h
    have hfolds := Bench.length_folds_of_fold h
    dsimp only at hnumbers ⊢
    omega

/-- A number and an operator are counted, and parentheses change no count. -/
theorem tallies_invariant : Invariant Tallies where
  start := ⟨.nil, rfl⟩
  number hs hvalue offset := by
    constructor
    · simpa [Item.isOperator_run hvalue] using hs.operators
    · have hnumbers := hs.numbers
      rw [List.filter_append, List.filter_cons_of_pos (Item.isNumber_run hvalue offset)]
      simp only [Bench.operands_push, Bench.folds_push, List.length_append, List.length_cons,
        List.filter_nil, List.length_nil]
      omega
  opening hs offset :=
    ⟨by simpa [Item.isOperator_opening] using hs.operators,
      by simpa [Item.isNumber_opening] using hs.numbers⟩
  closing hs offset :=
    ⟨by simpa [Item.isOperator_closing] using hs.operators,
      by simpa [Item.isNumber_closing] using hs.numbers⟩
  operator hs op offset := by
    constructor
    · rw [List.filter_append, List.filter_cons_of_pos (Item.isOperator_symbol op offset),
        List.filter_nil]
      exact List.perm_middle.trans
        ((hs.operators.cons _).trans (List.perm_append_singleton _ _).symm)
    · simpa [Item.isNumber_symbol] using hs.numbers
  fold := Tallies.fold

end State

namespace Text

variable {t : Text} {bench : Bench}

/-- A run that comes to its end has applied each operator of the text exactly once. -/
theorem folds_perm_operators (h : t.state >>= State.finish = .ok bench) :
    (bench.folds.map Fold.item).Perm t.operators := by
  have hops := (State.tallies_invariant.finish h).operators
  rw [waitingOperators_nil, List.append_nil] at hops
  exact hops

/-- What is left at the end is one operand for each number but one fewer for each operator. -/
theorem length_operands_add (h : t.state >>= State.finish = .ok bench) :
    bench.operands.length + t.operators.length = t.numbers.length := by
  rw [← (folds_perm_operators h).length_eq, List.length_map]
  exact (State.tallies_invariant.finish h).numbers

/-- Nothing is left only of a text without numbers. -/
theorem numbers_of_operands_eq_nil (h : t.state >>= State.finish = .ok bench)
    (hbench : bench.operands = []) : t.numbers = [] := by
  obtain ⟨forest, hforest, hleaves, -⟩ := State.grown_invariant.finish h
  rw [hbench, List.forall₂_nil_right_iff] at hforest
  rw [hforest] at hleaves
  exact hleaves.symm

end Text

namespace State

section

variable {items : List Item} {op : Operator} {offset : Nat} {below : List Pending} {b : Bench}

/-- An operator that waits on top is one more of those read than were applied. -/
theorem Tallies.subperm_operator (hs : Tallies items ⟨.operator op offset :: below, b⟩) :
    (⟨.mark op.symbol, offset⟩ :: b.folds.map Fold.item).Subperm
      (items.filter Item.isOperator) := by
  have hops := hs.operators
  rw [waitingOperators_operator] at hops
  refine List.Subperm.trans ?_ (List.perm_middle.symm.trans hops).subperm
  exact ((List.sublist_append_left _ _).cons_cons _).subperm

theorem Tallies.subperm {s : State} (hs : s.Tallies items) :
    (s.bench.folds.map Fold.item).Subperm (items.filter Item.isOperator) :=
  (List.sublist_append_left _ _).subperm.trans hs.operators.subperm

end

variable {t : Text} {halt : Halt}

theorem filter_subperm_operators {items : List Item} (h : items <+: t.items) :
    (items.filter Item.isOperator).Subperm t.operators :=
  (h.sublist.filter _).subperm

/-- No operator of a text is applied twice, even if the last of them fails. -/
theorem Halts.subperm_operators (h : Halts Tallies t halt) :
    (halt.folds.map Fold.item).Subperm t.operators := by
  cases h with
  | item hitems hs => exact hs.subperm.trans (filter_subperm_operators ⟨_, hitems.symm⟩)
  | @fold items op offset below b halt hitems hs hfold =>
    refine List.Subperm.trans ?_ (filter_subperm_operators hitems)
    obtain ⟨right, left, rest, -, -, rfl⟩ | rfl := Bench.fold_eq_error hfold
    · exact hs.subperm_operator
    · exact hs.subperm
  | closing hitems hs => exact hs.subperm.trans (filter_subperm_operators ⟨_, hitems.symm⟩)
  | opening hs => exact hs.subperm

/-- A division by zero is the last fold noted, and its right operand is to blame. -/
theorem Halts.divisionByZero (h : Halts Tallies t halt)
    (hkind : halt.fault.kind = .divisionByZero) :
    ∃ last before, halt.folds = last :: before ∧
      last.op.apply last.left.value last.right.value = .error .divisionByZero ∧
      halt.fault.span = last.right.span := by
  cases h with
  | item _ _ htoken =>
    obtain hother | hother := Item.kind_of_token_error htoken
    · cases hother.symm.trans hkind
    · cases hother.symm.trans hkind
  | fold _ _ hfold =>
    obtain ⟨right, left, rest, -, happly, rfl⟩ | rfl := Bench.fold_eq_error hfold
    · exact ⟨_, _, rfl, happly, rfl⟩
    · cases hkind
  | closing => cases hkind
  | opening => cases hkind

/-- An operator without an operand is none of those that were applied. -/
theorem Halts.missingOperand (h : Halts Tallies t halt) {op : Operator}
    (hcause : halt.fault.cause = .missingOperand op) :
    ∃ offset, halt.fault.span = .single offset ∧ ⟨.mark op.symbol, offset⟩ ∈ t.operators ∧
      ⟨.mark op.symbol, offset⟩ ∉ halt.folds.map Fold.item := by
  have hkind : halt.fault.kind = .missingOperand := by rw [Fault.kind, hcause, Cause.kind]
  cases h with
  | item _ _ htoken =>
    obtain hother | hother := Item.kind_of_token_error htoken
    · cases hother.symm.trans hkind
    · cases hother.symm.trans hkind
  | @fold items op' offset below b halt hitems hs hfold =>
    obtain ⟨right, left, rest, -, -, rfl⟩ | rfl := Bench.fold_eq_error hfold
    · cases hcause
    · cases hcause
      obtain ⟨noted, hperm, hsublist⟩ :=
        hs.subperm_operator.trans (filter_subperm_operators hitems)
      have hnodup := hperm.nodup_iff.mp (hsublist.nodup (t.nodup_items.filter _))
      refine ⟨offset, rfl, hsublist.subset ?_, (List.nodup_cons.mp hnodup).1⟩
      exact hperm.mem_iff.mpr List.mem_cons_self
  | closing => cases hkind
  | opening => cases hkind

end State
end ExactCalculator
