import ExactCalculator.Run.Outcome
import ExactCalculator.Proofs.Decimal.Numeral
import ExactCalculator.Proofs.Tokens

/-!
The steps of a run as equations. Taking in an operator or a closing parenthesis is unwinding and
then one more change of the stack, and a run is one chain of such steps, in which a halt ends
everything. Unwinding may be cut into two stages (`unwind_unwind`), and it stops at once where
something blocks it.
-/
namespace ExactCalculator

@[simp] theorem ok_bind {ε α β : Type} (a : α) (f : α → Except ε β) :
    (Except.ok a >>= f) = f a := rfl
@[simp] theorem error_bind {ε α β : Type} (e : ε) (f : α → Except ε β) :
    ((Except.error e : Except ε α) >>= f) = .error e := rfl

/-- A chain succeeds when its first step does and what follows does. -/
theorem bind_eq_ok {ε α β : Type} {x : Except ε α} {f : α → Except ε β} {b : β} :
    x >>= f = .ok b ↔ ∃ a, x = .ok a ∧ f a = .ok b := by
  cases x with
  | ok a => simp
  | error e => simp

/-- A chain fails when its first step does, or what follows. -/
theorem bind_eq_error {ε α β : Type} {x : Except ε α} {f : α → Except ε β} {e : ε} :
    x >>= f = .error e ↔ x = .error e ∨ ∃ a, x = .ok a ∧ f a = .error e := by
  cases x with
  | ok a => simp
  | error e => simp

theorem Bench.fold_of_apply_ok {op : Operator} {x y : Operand} {value : Decimal}
    (h : op.apply x.value y.value = .ok value) (offset : Nat) (below : List Operand)
    (folds : List Fold) :
    fold ⟨y :: x :: below, folds⟩ op offset =
      .ok ⟨⟨value, x.span.join y.span⟩ :: below, ⟨op, offset, x, y⟩ :: folds⟩ := by
  simp only [fold, h]

theorem Bench.fold_of_apply_error {op : Operator} {x y : Operand}
    (h : op.apply x.value y.value = .error .divisionByZero) (offset : Nat) (below : List Operand)
    (folds : List Fold) :
    fold ⟨y :: x :: below, folds⟩ op offset =
      .error ⟨⟨.divisionByZero, y.span⟩, ⟨op, offset, x, y⟩ :: folds⟩ := by
  simp only [fold, h]

/-- A fold takes the two newest operands; a zero divisor or a missing operand ends the run. -/
theorem Bench.fold_cases (b : Bench) (op : Operator) (offset : Nat) :
    (∃ right left below value, b.operands = right :: left :: below ∧
      op.apply left.value right.value = .ok value ∧
      b.fold op offset =
        .ok ⟨⟨value, left.span.join right.span⟩ :: below, ⟨op, offset, left, right⟩ :: b.folds⟩) ∨
    (∃ right left below, b.operands = right :: left :: below ∧
      op.apply left.value right.value = .error .divisionByZero ∧
      b.fold op offset =
        .error ⟨⟨.divisionByZero, right.span⟩, ⟨op, offset, left, right⟩ :: b.folds⟩) ∨
    (b.operands.length < 2 ∧
      b.fold op offset = .error (b.halt ⟨.missingOperand op, .single offset⟩)) := by
  obtain ⟨operands, folds⟩ := b
  match operands with
  | [] => exact .inr (.inr ⟨by simp, rfl⟩)
  | [_] => exact .inr (.inr ⟨by simp, rfl⟩)
  | right :: left :: below =>
    cases happly : op.apply left.value right.value with
    | ok value => exact .inl ⟨right, left, below, value, rfl, happly, fold_of_apply_ok happly ..⟩
    | error e => exact .inr (.inl ⟨right, left, below, rfl, happly, fold_of_apply_error happly ..⟩)

/-- A fold that succeeds takes the two newest operands and puts one back. -/
theorem Bench.fold_eq_ok {b after : Bench} {op : Operator} {offset : Nat}
    (h : b.fold op offset = .ok after) :
    ∃ right left below value, b.operands = right :: left :: below ∧
      op.apply left.value right.value = .ok value ∧
      after =
        ⟨⟨value, left.span.join right.span⟩ :: below, ⟨op, offset, left, right⟩ :: b.folds⟩ := by
  obtain ⟨right, left, below, value, hoperands, happly, hfold⟩ | ⟨_, _, _, _, _, hfold⟩ |
    ⟨_, hfold⟩ := b.fold_cases op offset
  · rw [hfold] at h
    cases h
    exact ⟨right, left, below, value, hoperands, happly, rfl⟩
  · rw [hfold] at h
    cases h
  · rw [hfold] at h
    cases h

/-- A fold fails at a zero divisor, and then it is noted, or for want of an operand. -/
theorem Bench.fold_eq_error {b : Bench} {op : Operator} {offset : Nat} {halt : Halt}
    (h : b.fold op offset = .error halt) :
    (∃ right left below, b.operands = right :: left :: below ∧
      op.apply left.value right.value = .error .divisionByZero ∧
      halt = ⟨⟨.divisionByZero, right.span⟩, ⟨op, offset, left, right⟩ :: b.folds⟩) ∨
    halt = b.halt ⟨.missingOperand op, .single offset⟩ := by
  obtain ⟨_, _, _, _, _, _, hfold⟩ | ⟨right, left, below, hoperands, happly, hfold⟩ | ⟨_, hfold⟩ :=
    b.fold_cases op offset
  · rw [hfold] at h
    cases h
  · rw [hfold] at h
    cases h
    exact .inl ⟨right, left, below, hoperands, happly, rfl⟩
  · rw [hfold] at h
    cases h
    exact .inr rfl

namespace State

/-- Of the operators given, none is next to be folded. -/
def Blocks (among : Operator → Bool) (pending : List Pending) : Prop :=
  ∀ op offset below, pending = .operator op offset :: below → among op = false

theorem blocks_nil (among : Operator → Bool) : Blocks among [] := by
  intro op offset below h
  cases h

theorem blocks_paren (among : Operator → Bool) (offset : Nat) (below : List Pending) :
    Blocks among (.paren offset :: below) := by
  intro op offset' below' h
  cases h

theorem blocks_operator {among : Operator → Bool} {op : Operator} (h : among op = false)
    (offset : Nat) (below : List Pending) : Blocks among (.operator op offset :: below) := by
  intro op' offset' below' he
  cases he
  exact h

theorem unwind_of_blocks {among : Operator → Bool} {pending : List Pending}
    (h : Blocks among pending) (bench : Bench) :
    unwind among pending bench = .ok ⟨pending, bench⟩ := by
  cases pending with
  | nil => rfl
  | cons p below =>
    cases p with
    | paren offset => rfl
    | operator op offset => exact unwind_operator_of_not_among (h op offset below rfl)

/-- An operator among those given is folded, and unwinding goes on below it. -/
theorem unwind_operator {among : Operator → Bool} {op : Operator} (hop : among op = true)
    (offset : Nat) (below : List Pending) (bench : Bench) :
    unwind among (.operator op offset :: below) bench =
      bench.fold op offset >>= fun bench => unwind among below bench := by
  simp only [unwind, hop, if_true]
  cases bench.fold op offset <;> rfl

/-- What every fold of the entry on top preserves, unwinding preserves. -/
theorem unwind_invariant {motive : State → Prop}
    (hfold : ∀ op offset below b after, motive ⟨.operator op offset :: below, b⟩ →
      b.fold op offset = .ok after → motive ⟨below, after⟩)
    {among : Operator → Bool} {pending : List Pending} {b : Bench} {s : State}
    (hb : motive ⟨pending, b⟩) (h : unwind among pending b = .ok s) : motive s := by
  induction pending generalizing b with
  | nil =>
    cases h
    exact hb
  | cons p below ih =>
    cases p with
    | paren offset =>
      cases h
      exact hb
    | operator op offset =>
      by_cases hop : among op = true
      · rw [unwind_operator hop] at h
        obtain ⟨after, hafter, hrest⟩ := bind_eq_ok.mp h
        exact ih (hfold op offset below b after hb hafter) hrest
      · rw [unwind_operator_of_not_among (by simpa using hop)] at h
        cases h
        exact hb

/-- When unwinding fails, one of the folds on the way does, in a state that is like the first. -/
theorem unwind_eq_error {motive : State → Prop}
    (hfold : ∀ op offset below b after, motive ⟨.operator op offset :: below, b⟩ →
      b.fold op offset = .ok after → motive ⟨below, after⟩)
    {among : Operator → Bool} {pending : List Pending} {b : Bench} {halt : Halt}
    (hb : motive ⟨pending, b⟩) (h : unwind among pending b = .error halt) :
    ∃ op offset below b, motive ⟨.operator op offset :: below, b⟩ ∧
      b.fold op offset = .error halt := by
  induction pending generalizing b with
  | nil => cases h
  | cons p below ih =>
    cases p with
    | paren offset => cases h
    | operator op offset =>
      by_cases hop : among op = true
      · rw [unwind_operator hop] at h
        obtain hlast | ⟨after, hafter, hrest⟩ := bind_eq_error.mp h
        · exact ⟨op, offset, below, b, hb, hlast⟩
        · exact ih (hfold op offset below b after hb hafter) hrest
      · rw [unwind_operator_of_not_among (by simpa using hop)] at h
        cases h

/-- Unwinding some operators first changes nothing when all of them are to be unwound. -/
theorem unwind_unwind {first among : Operator → Bool}
    (h : ∀ op, first op = true → among op = true) (pending : List Pending) (bench : Bench) :
    (unwind first pending bench >>= fun s => unwind among s.pending s.bench) =
      unwind among pending bench := by
  induction pending generalizing bench with
  | nil => rfl
  | cons p below ih =>
    cases p with
    | paren offset => rfl
    | operator op offset =>
      by_cases hop : first op = true
      · rw [unwind_operator hop, unwind_operator (h op hop)]
        cases bench.fold op offset with
        | ok after => exact ih after
        | error halt => rfl
      · rw [unwind_operator_of_not_among (by simpa using hop)]
        rfl

/-- When all operators of a group are folded, a parenthesis comes next, or nothing waits. -/
theorem endGroup_cases {s ended : State} (h : s.endGroup = .ok ended) :
    ended.pending = [] ∨ ∃ offset below, ended.pending = .paren offset :: below := by
  cases hp : ended.pending with
  | nil => exact .inl rfl
  | cons p below =>
    cases p with
    | paren offset => exact .inr ⟨offset, below, rfl⟩
    | operator op offset =>
      have hnot := pending_of_unwind h op offset below hp
      cases hnot

/-- Takes the parenthesis off that a group began with, once the group is unwound. -/
def dropParen (offset : Nat) : State → Except Halt State
  | ⟨.paren _ :: below, bench⟩ => .ok ⟨below, bench⟩
  | s => .error (s.bench.halt ⟨.unmatchedParen .closing, .single offset⟩)

theorem dropParen_eq_ok {s after : State} {offset : Nat} (h : s.dropParen offset = .ok after) :
    ∃ m, s = ⟨.paren m :: after.pending, after.bench⟩ := by
  obtain ⟨pending, bench⟩ := s
  cases pending with
  | nil => cases h
  | cons p below =>
    cases p with
    | operator op m => cases h
    | paren m =>
      cases h
      exact ⟨m, rfl⟩

theorem dropParen_eq_error {s : State} {offset : Nat} {halt : Halt}
    (h : s.dropParen offset = .error halt) :
    halt = s.bench.halt ⟨.unmatchedParen .closing, .single offset⟩ := by
  obtain ⟨pending, bench⟩ := s
  cases pending with
  | nil =>
    cases h
    rfl
  | cons p below =>
    cases p with
    | operator op m =>
      cases h
      rfl
    | paren m => cases h

/-- The end of a text, where no parenthesis may be open any more. -/
def allClosed : State → Except Halt Bench
  | ⟨[], bench⟩ => .ok bench
  | ⟨p :: _, bench⟩ => .error (bench.halt ⟨.unmatchedParen .opening, .single p.offset⟩)

theorem allClosed_eq_ok {s : State} {bench : Bench} (h : s.allClosed = .ok bench) :
    s = ⟨[], bench⟩ := by
  obtain ⟨pending, operands⟩ := s
  cases pending with
  | nil =>
    cases h
    rfl
  | cons p below => cases h

theorem allClosed_eq_error {s : State} {halt : Halt} (h : s.allClosed = .error halt) :
    ∃ p below, s.pending = p :: below ∧
      halt = s.bench.halt ⟨.unmatchedParen .opening, .single p.offset⟩ := by
  obtain ⟨pending, bench⟩ := s
  cases pending with
  | nil => cases h
  | cons p below =>
    cases h
    exact ⟨p, below, rfl, rfl⟩

theorem finish_eq (s : State) : s.finish = s.endGroup >>= allClosed := by
  unfold finish
  cases s.endGroup with
  | error halt => rfl
  | ok s =>
    obtain ⟨pending, bench⟩ := s
    cases pending <;> rfl

theorem feed_number {t : Token} {value : Decimal} (h : t.meaning = .number value) (s : State) :
    s.feed t = .ok ⟨s.pending, s.bench.push ⟨value, t.span⟩⟩ := by
  simp only [feed, h]

theorem feed_opening {t : Token} (h : t.meaning = .opening) (s : State) :
    s.feed t = .ok ⟨.paren t.offset :: s.pending, s.bench⟩ := by
  simp only [feed, h]

theorem feed_operator {t : Token} {op : Operator} (h : t.meaning = .operator op) (s : State) :
    s.feed t =
      s.giveWay op >>= fun s => .ok ⟨.operator op t.offset :: s.pending, s.bench⟩ := by
  simp only [feed, h]
  cases s.giveWay op <;> rfl

theorem feed_closing {t : Token} (h : t.meaning = .closing) (s : State) :
    s.feed t = s.endGroup >>= dropParen t.offset := by
  simp only [feed, h]
  cases s.endGroup with
  | error halt => rfl
  | ok s =>
    obtain ⟨pending, bench⟩ := s
    cases pending with
    | nil => rfl
    | cons p below => cases p <;> rfl

theorem read_of_token {i : Item} {t : Token} (h : i.token = .ok t) (s : State) :
    s.read i = s.feed t := by
  simp only [read, h]

theorem read_of_fault {i : Item} {f : Fault} (h : i.token = .error f) (s : State) :
    s.read i = .error (s.bench.halt f) := by
  simp only [read, h]

/-- A literal puts its value on the bench. -/
theorem read_run {w : Text} {value : Decimal} (h : Decimal.ofLiteral w = .ok value) (s : State)
    (offset : Nat) :
    s.read ⟨.run w, offset⟩ = .ok ⟨s.pending, s.bench.push ⟨value, .ofText offset w⟩⟩ := by
  rw [read_of_token (Item.token_run h offset), feed_number rfl]
  rfl

theorem read_opening (s : State) (offset : Nat) :
    s.read ⟨.mark '(', offset⟩ = .ok ⟨.paren offset :: s.pending, s.bench⟩ := by
  rw [read_of_token (Item.token_opening offset), feed_opening rfl]

theorem read_closing (s : State) (offset : Nat) :
    s.read ⟨.mark ')', offset⟩ = s.endGroup >>= dropParen offset := by
  rw [read_of_token (Item.token_closing offset), feed_closing rfl]

theorem read_symbol (op : Operator) (s : State) (offset : Nat) :
    s.read ⟨.mark op.symbol, offset⟩ =
      s.giveWay op >>= fun s => .ok ⟨.operator op offset :: s.pending, s.bench⟩ := by
  rw [read_of_token (Item.token_symbol op offset), feed_operator rfl]

theorem read_of_error {l : Lexeme} {cause : Cause} (h : l.meaning = .error cause) (s : State)
    (offset : Nat) :
    s.read ⟨l, offset⟩ = .error (s.bench.halt ⟨cause, (Item.mk l offset).span⟩) :=
  read_of_fault (Item.token_of_error h offset) s

/-- An item that ends a run is a fault itself, or it makes a fold fail, or it closes too much. -/
theorem read_eq_error {s : State} {i : Item} {halt : Halt} (h : s.read i = .error halt) :
    (i.token = .error halt.fault) ∨
    (∃ among, unwind among s.pending s.bench = .error halt) ∨
    (i.lexeme = .mark ')' ∧
      ∃ ended, s.endGroup = .ok ended ∧ ended.dropParen i.offset = .error halt) := by
  obtain ⟨l, offset⟩ := i
  obtain ⟨w, value, rfl, hvalue⟩ | rfl | rfl | ⟨op, rfl⟩ | ⟨cause, hcause⟩ := l.sorts
  · rw [read_run hvalue] at h
    cases h
  · rw [read_opening] at h
    cases h
  · rw [read_closing] at h
    obtain hend | hdrop := bind_eq_error.mp h
    · exact .inr (.inl ⟨_, hend⟩)
    · exact .inr (.inr ⟨rfl, hdrop⟩)
  · rw [read_symbol] at h
    obtain hgive | ⟨given, -, hpush⟩ := bind_eq_error.mp h
    · exact .inr (.inl ⟨_, hgive⟩)
    · cases hpush
  · rw [read_of_error hcause] at h
    cases h
    exact .inl (Item.token_of_error hcause offset)

@[simp] theorem readAll_cons (s : State) (i : Item) (items : List Item) :
    s.readAll (i :: items) = s.read i >>= fun s => s.readAll items := by
  rw [readAll]
  cases s.read i <;> rfl

/-- What every item preserves of what was read and the state after it, any number preserves. -/
theorem readAll_invariant {motive : List Item → State → Prop}
    (hread : ∀ items s i after, motive items s → s.read i = .ok after → motive (items ++ [i]) after)
    {items more : List Item} {s after : State} (hs : motive items s)
    (h : s.readAll more = .ok after) : motive (items ++ more) after := by
  induction more generalizing s items with
  | nil =>
    cases h
    rw [List.append_nil]
    exact hs
  | cons i more ih =>
    rw [readAll_cons] at h
    obtain ⟨next, hnext, hrest⟩ := bind_eq_ok.mp h
    rw [List.append_cons]
    exact ih (hread items s i next hs hnext) hrest

/-- Of items that end a run one does, in a state that came of those in front of it. -/
theorem readAll_eq_error {motive : List Item → State → Prop}
    (hread : ∀ items s i after, motive items s → s.read i = .ok after → motive (items ++ [i]) after)
    {items more : List Item} {s : State} {halt : Halt} (hs : motive items s)
    (h : s.readAll more = .error halt) :
    ∃ front i behind last, more = front ++ i :: behind ∧ motive (items ++ front) last ∧
      last.read i = .error halt := by
  induction more generalizing s items with
  | nil => cases h
  | cons i more ih =>
    rw [readAll_cons] at h
    obtain hi | ⟨next, hnext, hrest⟩ := bind_eq_error.mp h
    · refine ⟨[], i, more, s, rfl, ?_, hi⟩
      rw [List.append_nil]
      exact hs
    · obtain ⟨front, j, behind, last, rfl, hlast, hj⟩ := ih (hread items s i next hs hnext) hrest
      refine ⟨i :: front, j, behind, last, rfl, ?_, hj⟩
      rw [List.append_cons]
      exact hlast

theorem readAll_singleton (s : State) (i : Item) : s.readAll [i] = s.read i := by
  rw [readAll_cons]
  cases s.read i <;> rfl

end State

/-- A literal is one item, and its value is one operand. -/
theorem State.readAll_literal {t : Text} (h : t.IsLiteral) (s : State) (offset : Nat) :
    s.readAll (t.itemsAt offset) =
      .ok ⟨s.pending, s.bench.push ⟨t.literalDecimal, .ofText offset t⟩⟩ := by
  have hne : t ≠ [] := by
    obtain ⟨c, hc, -⟩ := h.digit
    exact List.ne_nil_of_mem hc
  have hitems := Text.itemsAt_run hne h.numeral (t := []) (by simp [Text.NoNumeralFirst]) offset
  rw [List.append_nil, Text.itemsAt_nil] at hitems
  rw [hitems, readAll_singleton, read_run (Decimal.ofLiteral_of_isLiteral h)]

/-- The items of a group are read above its parenthesis, which goes once they are folded. -/
theorem State.readAll_group (s : State) (items : List Item) (offset close : Nat) :
    s.readAll (⟨.mark '(', offset⟩ :: (items ++ [⟨.mark ')', close⟩])) =
      (readAll ⟨.paren offset :: s.pending, s.bench⟩ items >>= endGroup) >>= dropParen close := by
  rw [readAll_cons, read_opening, ok_bind, readAll_append]
  cases readAll ⟨.paren offset :: s.pending, s.bench⟩ items with
  | error halt => rfl
  | ok s =>
    rw [ok_bind, readAll_singleton, read_closing]
    rfl

def resultOf (length : Nat) : Except Halt Bench → Except Fault Decimal
  | .error halt => .error halt.fault
  | .ok bench => bench.result length

/-- A text is read, what then waits is folded, and one value has to be left. -/
theorem evaluate_eq (t : Text) :
    evaluate t = resultOf (Text.byteLength t) (t.state >>= State.finish) := by
  unfold evaluate
  cases hs : t.state with
  | error halt =>
    rw [Text.run_of_state_error hs]
    rfl
  | ok s =>
    rw [ok_bind]
    cases hf : s.finish with
    | error halt =>
      rw [Text.run_of_finish_error hs hf]
      rfl
    | ok bench =>
      rw [Text.run_of_finish_ok hs hf]
      rfl

/-- The folds of a run that has come to an end, the earliest first. -/
def foldsOf : Except Halt Bench → List Fold
  | .error halt => halt.folds.reverse
  | .ok bench => bench.folds.reverse

/-- What is noted of a run is noted in reading, or in folding what then waits. -/
theorem Text.folds_run_eq (t : Text) : t.run.folds = foldsOf (t.state >>= State.finish) := by
  cases hs : t.state with
  | error halt =>
    rw [Text.run_of_state_error hs]
    rfl
  | ok s =>
    rw [ok_bind]
    cases hf : s.finish with
    | error halt =>
      rw [Text.run_of_finish_error hs hf]
      rfl
    | ok bench =>
      rw [Text.run_of_finish_ok hs hf]
      rfl

end ExactCalculator
