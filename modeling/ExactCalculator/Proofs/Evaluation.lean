import ExactCalculator.Proofs.Decimal.NormalForm
import ExactCalculator.Proofs.Postorder

/-!
Spelled expressions have their exact value. Reading a text that spells a tree, and then folding the
operators that its rule may leave waiting, does to the bench what the tree does by itself: push the
literals and fold the operators, operands first (`readAs_of_spelled`). What was waiting before is
untouched, so the statement can be used again inside a larger text. So the folds of a run over such
a text are the operations of its tree (`folds_of_spelled`), and the main theorem
(`evaluate_of_spelled`) joins this with the exact values of decimals.
-/
namespace ExactCalculator

namespace Expression

/-- A tree without a division by zero leaves its value, and any other the first such division. -/
theorem onBench_cases (e : Expression) (bench : Bench) :
    (e.zeroDivisor? = none ∧ ∃ x folds, e.onBench bench = .ok ⟨x :: bench.operands, folds⟩ ∧
      x.value.toRat = e.value ∧ x.span = e.span) ∨
    (∃ divisor folds, e.zeroDivisor? = some divisor ∧
      e.onBench bench = .error ⟨⟨.divisionByZero, divisor.span⟩, folds⟩) := by
  rw [zeroDivisor?_eq]
  obtain ⟨hnone, x, folds, hb, hx, -⟩ | ⟨offset, left, divisor, folds, hsome, hb, -⟩ :=
    e.onBench_folds bench
  · rw [hnone]
    exact .inl ⟨rfl, x, _, hb, hx.value, hx.span⟩
  · rw [hsome]
    exact .inr ⟨divisor, _, rfl, hb⟩

end Expression

/-- The operators that a text spelled by a rule may leave waiting. -/
def Level.among : Level → Operator → Bool
  | .expr, _ => true
  | .term, op => op == .star || op == .slash
  | .factor, _ => false

/-- The rule that spells the left operand of an operator. -/
def Operator.leftLevel : Operator → Level
  | .plus | .minus => .expr
  | .star | .slash => .term

namespace State

/-- What an operator folds is what its left operand may have left waiting. -/
theorem giveWay_eq_unwind (op : Operator) (s : State) :
    s.giveWay op = unwind op.leftLevel.among s.pending s.bench := by
  have hamong : (fun waiting : Operator => decide (op.precedence ≤ waiting.precedence)) =
      op.leftLevel.among := by
    funext waiting
    cases op <;> cases waiting <;> rfl
  rw [giveWay, hamong]

end State

namespace Expression

open State

/-- Reading the items and folding the operators that are left, a bench changes as by the tree. -/
def ReadAs (items : List Item) (among : Operator → Bool) (e : Expression)
    (pending : List Pending) : Prop :=
  ∀ bench, (readAll ⟨pending, bench⟩ items >>= fun s => unwind among s.pending s.bench) =
    e.onBench bench >>= fun bench => .ok ⟨pending, bench⟩

/-- Whatever was read, folding some of the operators first changes nothing. -/
theorem bind_unwind_unwind {first among : Operator → Bool}
    (h : ∀ op, first op = true → among op = true) (r : Except Halt State) :
    ((r >>= fun s => unwind first s.pending s.bench) >>= fun s => unwind among s.pending s.bench) =
      r >>= fun s => unwind among s.pending s.bench := by
  cases r with
  | error halt => rfl
  | ok s => exact unwind_unwind h s.pending s.bench

/-- More operators may be folded afterwards if what waited before blocks them. -/
theorem ReadAs.mono {items : List Item} {first among : Operator → Bool} {e : Expression}
    {pending : List Pending} (h : ReadAs items first e pending)
    (hsub : ∀ op, first op = true → among op = true) (hblocks : Blocks among pending) :
    ReadAs items among e pending := by
  intro bench
  rw [← bind_unwind_unwind hsub, h bench]
  cases e.onBench bench with
  | error halt => rfl
  | ok after => exact unwind_of_blocks hblocks after

/-- Two operands with an operator between them: the operator folds what may wait from the left one,
then waits below the right one, and is folded at the end. -/
theorem ReadAs.binary {left right : List Item} {first among : Operator → Bool} {op : Operator}
    {offset : Nat} {a b : Expression} {pending : List Pending}
    (hgive : ∀ s : State, s.giveWay op = unwind among s.pending s.bench) (hop : among op = true)
    (hsub : ∀ op, first op = true → among op = true) (hblocks : Blocks among pending)
    (ha : ReadAs left among a pending)
    (hb : ReadAs right first b (.operator op offset :: pending)) :
    ReadAs (left ++ ⟨.mark op.symbol, offset⟩ :: right) among (.binary op offset a b) pending := by
  intro bench
  have hread : readAll ⟨pending, bench⟩ (left ++ ⟨.mark op.symbol, offset⟩ :: right) =
      (readAll ⟨pending, bench⟩ left >>= fun s => unwind among s.pending s.bench) >>=
        fun s => readAll ⟨.operator op offset :: s.pending, s.bench⟩ right := by
    rw [readAll_append]
    cases readAll ⟨pending, bench⟩ left with
    | error halt => rfl
    | ok s =>
      simp only [ok_bind, readAll_cons, read_symbol, hgive]
      cases unwind among s.pending s.bench <;> rfl
  rw [hread, ha bench, onBench]
  cases a.onBench bench with
  | error halt => rfl
  | ok afterLeft =>
    simp only [ok_bind]
    rw [← bind_unwind_unwind hsub, hb afterLeft]
    cases b.onBench afterLeft with
    | error halt => rfl
    | ok afterRight =>
      simp only [ok_bind]
      rw [unwind_operator hop]
      cases afterRight.fold op offset with
      | error halt => rfl
      | ok after => exact unwind_of_blocks hblocks after

/-- A group is over when its own operators are folded, whatever waits outside of it. -/
theorem ReadAs.group {items : List Item} {e : Expression} {pending : List Pending} {offset : Nat}
    (h : ReadAs items Level.expr.among e (.paren offset :: pending)) (close : Nat) :
    ReadAs (⟨.mark '(', offset⟩ :: (items ++ [⟨.mark ')', close⟩])) Level.factor.among e
      pending := by
  intro bench
  have hgroup := h bench
  change (readAll ⟨.paren offset :: pending, bench⟩ items >>= fun s => s.endGroup) = _ at hgroup
  rw [readAll_group, hgroup]
  cases e.onBench bench with
  | error halt => rfl
  | ok after => exact unwind_of_blocks (fun _ _ _ _ => rfl) after

/-- A text that a rule spells is read as its tree, on top of anything that blocks the operators
that the rule may leave waiting. -/
theorem readAs_of_spelled {level : Level} {offset : Nat} {t : Text} {e : Expression}
    (h : Spelled level offset t e) {pending : List Pending} (hp : Blocks level.among pending) :
    ReadAs (Text.itemsAt offset t) level.among e pending := by
  induction h generalizing pending with
  | @literal offset t ht =>
    intro bench
    rw [readAll_literal ht]
    exact unwind_of_blocks hp _
  | @group offset t e h ih =>
    rw [Text.itemsAt_group]
    exact (ih (blocks_paren _ _ _)).group _
  | ofFactor h ih =>
    exact (ih fun _ _ _ _ => rfl).mono (fun _ hop => by cases hop) hp
  | @product _ _ _ _ _ op hop ha hb iha ihb =>
    rw [Text.itemsAt_symbol]
    have hlevel : op.leftLevel = .term := by obtain rfl | rfl := hop <;> rfl
    exact ReadAs.binary (hlevel ▸ giveWay_eq_unwind op) (by obtain rfl | rfl := hop <;> rfl)
      (fun _ hop => by cases hop) hp (iha hp) (ihb fun _ _ _ _ => rfl)
  | ofTerm h ih =>
    -- Whatever blocks all operators blocks the products among them.
    have hterm : Blocks Level.term.among pending := by
      intro op offset below hpending
      cases hp op offset below hpending
    exact (ih hterm).mono (fun _ _ => rfl) hp
  | @sum _ _ _ _ _ op hop ha hb iha ihb =>
    rw [Text.itemsAt_symbol]
    have hlevel : op.leftLevel = .expr := by obtain rfl | rfl := hop <;> rfl
    exact ReadAs.binary (hlevel ▸ giveWay_eq_unwind op) rfl (fun _ _ => rfl) hp (iha hp)
      (ihb (blocks_operator (by obtain rfl | rfl := hop <;> rfl) _ _))
  | spaceBefore h ih =>
    rw [Text.itemsAt_space]
    exact ih hp
  | @spaceAfter _ _ t _ h ih =>
    have hseam : Text.Seam t [' '] := .inr (by simp [Text.NoNumeralFirst, isNumeral])
    rw [Text.itemsAt_append hseam, Text.itemsAt_space, Text.itemsAt_nil, List.append_nil]
    exact ih hp

/-- The end of the text folds what a spelled expression leaves waiting. -/
theorem state_bind_finish {t : Text} {e : Expression} (h : Spelled .expr 0 t e) :
    t.state >>= finish = e.onBench .empty := by
  have hread := readAs_of_spelled h (blocks_nil _) .empty
  have hfinish : t.state >>= finish =
      (readAll ⟨[], .empty⟩ (Text.itemsAt 0 t) >>= fun s => s.endGroup) >>= allClosed := by
    change readAll ⟨[], .empty⟩ (Text.itemsAt 0 t) >>= finish = _
    cases readAll ⟨[], .empty⟩ (Text.itemsAt 0 t) with
    | error halt => rfl
    | ok s => exact finish_eq s
  change (readAll ⟨[], .empty⟩ (Text.itemsAt 0 t) >>= fun s => s.endGroup) = _ at hread
  rw [hfinish, hread]
  cases e.onBench .empty <;> rfl

/-- So the folds of a text that spells a tree are its operations. -/
theorem folds_of_spelled {t : Text} {e : Expression} (h : Spelled .expr 0 t e) :
    List.Forall₂ Fold.Applies (foldsOf (t.state >>= State.finish))
      (upToFirst isZeroDivision e.operations) := by
  rw [state_bind_finish h]
  obtain ⟨hnone, x, folds, hb, -, hfolds⟩ | ⟨_, _, _, folds, -, hb, hfolds⟩ :=
    e.onBench_folds .empty
  · rw [hb, upToFirst_of_none hnone]
    simpa [foldsOf, Bench.empty] using hfolds
  · rw [hb]
    simpa [foldsOf, Bench.empty] using hfolds

end Expression

/-- A spelled expression without a division by zero has its exact value, in normal form; any other
fails with the first division by zero and blames the divisor. Nothing else can go wrong. -/
theorem evaluate_of_spelled {t : Text} {e : Expression} (h : Spelled .expr 0 t e) :
    ((∀ divisor ∈ e.divisors, divisor.value ≠ 0) →
      ∃ d, evaluate t = .ok d ∧ d.IsNormal ∧ d.toRat = e.value ∧
        ∀ d' : Decimal, d'.IsNormal → d'.toRat = e.value → d' = d) ∧
    (∀ divisor, e.divisors.find? (fun divisor => divisor.value = 0) = some divisor →
      evaluate t = .error ⟨.divisionByZero, divisor.span⟩) ∧
    ∀ fault, evaluate t = .error fault → fault.kind = .divisionByZero := by
  rw [evaluate_eq, Expression.state_bind_finish h]
  obtain ⟨hnone, x, folds, hx, hvalue, -⟩ | ⟨first, folds, hfirst, hx⟩ := e.onBench_cases .empty
  · rw [hx]
    refine ⟨?_, ?_, ?_⟩
    · intro _
      refine ⟨x.value.normalized, rfl, x.value.isNormal_normalized, ?_, ?_⟩
      · rw [Decimal.toRat_normalized, hvalue]
      · intro d' hnormal hd'
        refine Decimal.eq_of_toRat_eq hnormal x.value.isNormal_normalized ?_
        rw [Decimal.toRat_normalized, hvalue, hd']
    · intro divisor hdivisor
      rw [Expression.zeroDivisor?, hdivisor] at hnone
      cases hnone
    · intro fault hfault
      cases hfault
  · rw [hx]
    refine ⟨?_, ?_, ?_⟩
    · intro hall
      rw [(Expression.zeroDivisor?_eq_none_iff e).mpr hall] at hfirst
      cases hfirst
    · intro divisor hdivisor
      rw [Expression.zeroDivisor?, hdivisor] at hfirst
      cases hfirst
      rfl
    · intro fault hfault
      cases hfault
      rfl

/-- In `8 + 6/(1.0-1)` the divisor is worth zero, and its two literals are blamed. -/
theorem evaluate_of_spelled_zero_divisor :
    evaluate ['8', ' ', '+', ' ', '6', '/', '(', '1', '.', '0', '-', '1', ')'] =
      .error ⟨.divisionByZero, ⟨7, 12⟩⟩ := by
  have hdivisor : Spelled .expr 7 ['1', '.', '0', '-', '1']
      (.binary .minus 10 (.literal ['1', '.', '0'] 7) (.literal ['1'] 11)) :=
    .sum (s := ['1', '.', '0']) (.inr rfl) (.ofTerm (.ofFactor (.literal (by decide))))
      (.ofFactor (.literal (by decide)))
  have hquotient : Spelled .term 4 ['6', '/', '(', '1', '.', '0', '-', '1', ')']
      (.binary .slash 5 (.literal ['6'] 4)
        (.binary .minus 10 (.literal ['1', '.', '0'] 7) (.literal ['1'] 11))) :=
    .product (s := ['6']) (.inr rfl) (.ofFactor (.literal (by decide))) (.group hdivisor)
  have hsum : Spelled .expr 0 ['8', ' ', '+', ' ', '6', '/', '(', '1', '.', '0', '-', '1', ')']
      (.binary .plus 2 (.literal ['8'] 0) (.binary .slash 5 (.literal ['6'] 4)
        (.binary .minus 10 (.literal ['1', '.', '0'] 7) (.literal ['1'] 11)))) :=
    .sum (s := ['8', ' ']) (.inl rfl)
      (.spaceAfter (t := ['8']) (.ofTerm (.ofFactor (.literal (by decide)))))
      (.spaceBefore hquotient)
  exact (evaluate_of_spelled hsum).2.1
    (.binary .minus 10 (.literal ['1', '.', '0'] 7) (.literal ['1'] 11)) (by decide +kernel)

end ExactCalculator
