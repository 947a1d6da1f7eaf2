import ExactCalculator.Proofs.Run.Ending
import ExactCalculator.Proofs.Run.Tally

/-!
The counts of tokens decide the outcome. With all items tokens and all parentheses paired, a run
can only fail in a fold, and if it does not, one operand is left for each number but one fewer for
each operator. Since a fold leaves an operand, nothing is left only where nothing was read but
parentheses (`failsAs_emptyExpression_iff`).
-/
namespace ExactCalculator

def Text.FailsAs (t : Text) (k : FaultKind) : Prop := ∃ f, evaluate t = .error f ∧ f.kind = k

/-- A token is a number, an operator or a parenthesis. -/
theorem Item.paren_of_token {i : Item} (h : ∃ token, i.token = .ok token)
    (hnumber : i.isNumber = false) (hoperator : i.isOperator = false) :
    i.lexeme = .mark '(' ∨ i.lexeme = .mark ')' := by
  obtain ⟨l, offset⟩ := i
  obtain ⟨w, value, rfl, hvalue⟩ | rfl | rfl | ⟨op, rfl⟩ | ⟨cause, hcause⟩ := l.sorts
  · rw [isNumber_run hvalue] at hnumber
    cases hnumber
  · exact .inl rfl
  · exact .inr rfl
  · rw [isOperator_symbol] at hoperator
    cases hoperator
  · obtain ⟨token, htoken⟩ := h
    rw [token_of_error hcause] at htoken
    cases htoken

/-- A fold fails only of an operator, or of a number that is the divisor. -/
theorem Fault.Blames.exists_of_ofFold {items : List Item} {f : Fault} (h : f.Blames items)
    (hf : f.OfFold) : ∃ i ∈ items, i.isNumber = true ∨ i.isOperator = true := by
  cases h with
  | item hi htoken =>
    obtain hkind | hkind := Item.kind_of_token_error htoken
    · simp [OfFold, hkind] at hf
    · simp [OfFold, hkind] at hf
  | paren side => simp [OfFold, kind, Cause.kind] at hf
  | operator hi => exact ⟨_, hi, .inr (Item.isOperator_symbol _ _)⟩
  | divisor hbridges =>
    obtain ⟨block, behind, hnumbers, first, hfirst, -⟩ := hbridges
    have hmem : first ∈ items.filter Item.isNumber := by
      rw [hnumbers]
      exact List.mem_append_right _ (List.mem_append_left _ (List.mem_of_head? hfirst))
    obtain ⟨hi, hnumber⟩ := List.mem_filter.mp hmem
    exact ⟨first, hi, .inl hnumber⟩
  | dangling => simp [OfFold, kind, Cause.kind] at hf

namespace Text

variable {t : Text}

/-- Only parentheses and spaces are there when only parentheses are lexed. -/
theorem only_parens_iff (t : Text) (offset : Nat) :
    (∀ c ∈ t, c = ' ' ∨ c = '(' ∨ c = ')') ↔
      ∀ i ∈ t.itemsAt offset, i.lexeme = .mark '(' ∨ i.lexeme = .mark ')' := by
  induction t using scanInduction generalizing offset with
  | nil => simp
  | space t ih => simp [itemsAt_space, ih (offset + 1)]
  | mark c t hc hn ih => simp [itemsAt_mark hc hn, ih (offset + c.utf8Size), hc]
  | run w t hne hw ht ih =>
    constructor
    · intro h
      obtain ⟨c, rest, rfl⟩ := List.exists_cons_of_ne_nil hne
      have hnumeral := hw c List.mem_cons_self
      obtain rfl | rfl | rfl := h c List.mem_cons_self
      all_goals cases hnumeral
    · intro h
      rw [itemsAt_run hne hw ht] at h
      obtain hrun | hrun := h _ List.mem_cons_self
      · cases hrun
      · cases hrun

/-- All parentheses paired and all items tokens, only a fold can fail before operands are
counted. -/
theorem fold_or_counted (hlexes : t.Lexes) (hbalanced : t.Balanced) :
    (∃ f, evaluate t = .error f ∧ f.OfFold) ∨
      ∃ bench, t.state >>= State.finish = .ok bench ∧
        evaluate t = bench.result (byteLength t) := by
  have hending := t.evaluate_ending
  generalize evaluate t = r at hending
  cases hending with
  | item hi hfault =>
    obtain ⟨token, htoken⟩ := hlexes _ hi
    rw [htoken] at hfault
    cases hfault
  | fold hfold => exact .inl ⟨_, rfl, hfold⟩
  | closing ht hbefore =>
    rw [ht] at hbalanced
    exact absurd hbalanced.closable.partnerBefore hbefore.not_partnerBefore
  | opening ht hbefore hbehind =>
    rw [ht] at hbalanced
    exact absurd hbalanced.partnerBehind hbehind.not_partnerBehind
  | counted hrun => exact .inr ⟨_, hrun, rfl⟩

/-- A fault that comes from an operand in want or a divisor that is zero. -/
theorem failsAs_of_ofFold {f : Fault} (h : evaluate t = .error f) (hf : f.OfFold) :
    t.FailsAs .missingOperand ∨ t.FailsAs .divisionByZero :=
  hf.imp (⟨f, h, ·⟩) (⟨f, h, ·⟩)

theorem FailsAs.kind_eq {k : FaultKind} (h : t.FailsAs k) {f : Fault}
    (hf : evaluate t = .error f) : f.kind = k := by
  obtain ⟨g, hg, hkind⟩ := h
  rw [hg] at hf
  cases hf
  exact hkind

/-- When operands are counted, the counts of tokens tell how many there are. -/
theorem counted_cases {bench : Bench} (hrun : t.state >>= State.finish = .ok bench)
    (hresult : evaluate t = bench.result (byteLength t)) :
    (t.numbers.length = 0 ∧ t.operators.length = 0 ∧ t.FailsAs .emptyExpression) ∨
    (t.numbers.length = t.operators.length + 1 ∧ ∃ v, evaluate t = .ok v) ∨
    (t.operators.length + 2 ≤ t.numbers.length ∧ t.FailsAs .danglingOperand) := by
  have hcounts := length_operands_add hrun
  rw [hresult]
  obtain ⟨hlength, hempty⟩ | ⟨hlength, v, hok⟩ | ⟨hlength, span, hdangling⟩ :=
    bench.result_cases (byteLength t)
  · have hnumbers := numbers_of_operands_eq_nil hrun (List.length_eq_zero_iff.mp hlength)
    have hnone := congrArg List.length hnumbers
    rw [List.length_nil] at hnone
    exact .inl ⟨hnone, by omega, _, hresult.trans hempty, rfl⟩
  · exact .inr (.inl ⟨by omega, v, hok⟩)
  · exact .inr (.inr ⟨by omega, _, hresult.trans hdangling, rfl⟩)

/-- Nothing is found exactly in a text of paired parentheses and spaces. -/
theorem failsAs_emptyExpression_iff (t : Text) :
    t.FailsAs .emptyExpression ↔ (∀ c ∈ t, c = ' ' ∨ c = '(' ∨ c = ')') ∧ t.Balanced := by
  rw [only_parens_iff t 0, ← items_eq_itemsAt]
  constructor
  · rintro ⟨f, hf, hkind⟩
    have hcount : IsCount (evaluate t) := by
      rw [hf]
      exact .inl hkind
    obtain ⟨⟨bench, hrun, hresult⟩, hlexes, hbalanced⟩ := counted_of_isCount hcount
    obtain ⟨hnumbers, hoperators, -⟩ | ⟨-, v, hv⟩ | ⟨-, hdangling⟩ := counted_cases hrun hresult
    · refine ⟨fun i hi => i.paren_of_token (hlexes i hi) ?_ ?_, hbalanced⟩
      · rw [List.length_eq_zero_iff] at hnumbers
        exact Bool.eq_false_iff.mpr (List.filter_eq_nil_iff.mp hnumbers i hi)
      · rw [List.length_eq_zero_iff] at hoperators
        exact Bool.eq_false_iff.mpr (List.filter_eq_nil_iff.mp hoperators i hi)
    · rw [hv] at hf
      cases hf
    · rw [hdangling.kind_eq hf] at hkind
      cases hkind
  · rintro ⟨hparens, hbalanced⟩
    have hplain : ∀ i ∈ t.items, (∃ token, i.token = .ok token) ∧
        ¬ (i.isNumber = true ∨ i.isOperator = true) := by
      rintro ⟨l, offset⟩ hi
      obtain rfl | rfl := hparens _ hi
      · exact ⟨⟨_, Item.token_opening offset⟩,
          by simp [Item.isNumber_opening, Item.isOperator_opening]⟩
      · exact ⟨⟨_, Item.token_closing offset⟩,
          by simp [Item.isNumber_closing, Item.isOperator_closing]⟩
    have hnumbers : t.numbers = [] :=
      List.filter_eq_nil_iff.mpr fun i hi h => (hplain i hi).2 (.inl h)
    obtain ⟨f, hf, hfold⟩ | ⟨bench, hrun, hresult⟩ :=
      fold_or_counted (fun i hi => (hplain i hi).1) hbalanced
    · obtain hblames | rfl := evaluate_blames hf
      · obtain ⟨i, hi, hi'⟩ := hblames.exists_of_ofFold hfold
        exact absurd hi' (hplain i hi).2
      · simp [Fault.OfFold, Fault.kind, Cause.kind] at hfold
    · obtain ⟨-, -, hempty⟩ | ⟨hlength, -⟩ | ⟨hlength, -⟩ := counted_cases hrun hresult
      · exact hempty
      · rw [hnumbers] at hlength
        cases hlength
      · rw [hnumbers] at hlength
        cases hlength

end Text

/-- The counts of the numbers and operators of a text decide its outcome, unless a fold fails, and
they decide that one must fail. Nothing is found only among parentheses, and operands are counted
only in a text of tokens with all parentheses paired. -/
theorem evaluate_counts (t : Text) :
    (t.Lexes → t.Balanced →
      (¬ t.FailsAs .missingOperand → ¬ t.FailsAs .divisionByZero →
        (∃ bench, t.state >>= State.finish = .ok bench ∧
          t.operators.length ≤ t.numbers.length ∧
          bench.operands.length = t.numbers.length - t.operators.length) ∧
        (t.numbers.length = 0 → t.operators.length = 0 → t.FailsAs .emptyExpression) ∧
        (t.numbers.length = t.operators.length + 1 → ∃ v, evaluate t = .ok v) ∧
        (t.operators.length + 2 ≤ t.numbers.length → t.FailsAs .danglingOperand)) ∧
      (1 ≤ t.operators.length → t.numbers.length ≤ t.operators.length →
        t.FailsAs .missingOperand ∨ t.FailsAs .divisionByZero)) ∧
    (t.FailsAs .emptyExpression ↔ (∀ c ∈ t, c = ' ' ∨ c = '(' ∨ c = ')') ∧ t.Balanced) ∧
    ((∃ v, evaluate t = .ok v) ∨ t.FailsAs .danglingOperand → t.Lexes ∧ t.Balanced) := by
  refine ⟨fun hlexes hbalanced => ?_, t.failsAs_emptyExpression_iff, ?_⟩
  · obtain ⟨f, hf, hfold⟩ | ⟨bench, hrun, hresult⟩ := Text.fold_or_counted hlexes hbalanced
    · have hfails := Text.failsAs_of_ofFold hf hfold
      exact ⟨fun hmissing hzero => absurd hfails (not_or.mpr ⟨hmissing, hzero⟩), fun _ _ => hfails⟩
    · have hcounts := Text.length_operands_add hrun
      have hcases := Text.counted_cases hrun hresult
      refine ⟨fun _ _ => ⟨⟨bench, hrun, by omega, by omega⟩, ?_, ?_, ?_⟩, ?_⟩
      · intro hnumbers hoperators
        obtain ⟨-, -, hempty⟩ | ⟨hlength, -⟩ | ⟨hlength, -⟩ := hcases
        · exact hempty
        · omega
        · omega
      · intro hone
        obtain ⟨hlength, -⟩ | ⟨-, hok⟩ | ⟨hlength, -⟩ := hcases
        · omega
        · exact hok
        · omega
      · intro hmany
        obtain ⟨hlength, -⟩ | ⟨hlength, -⟩ | ⟨-, hdangling⟩ := hcases
        · omega
        · omega
        · exact hdangling
      · -- All operators are applied, and the last application has left an operand.
        intro hsome hfew
        obtain ⟨-, hlength, -⟩ | ⟨hlength, -⟩ | ⟨hlength, -⟩ := hcases
        · omega
        · omega
        · omega
  · intro h
    have hcount : IsCount (evaluate t) := by
      obtain ⟨v, hv⟩ | ⟨f, hf, hkind⟩ := h
      · rw [hv]
        trivial
      · rw [hf]
        exact .inr hkind
    exact (Text.counted_of_isCount hcount).2

/-- In `2 3+` one operand is left, in `1-*2` a fold has to fail, and `( ())` is empty. -/
theorem evaluate_counts_instances :
    (∃ bench, Text.state ['2', ' ', '3', '+'] >>= State.finish = .ok bench ∧
      bench.operands.length = 1) ∧
    (Text.FailsAs ['1', '-', '*', '2'] .missingOperand ∨
      Text.FailsAs ['1', '-', '*', '2'] .divisionByZero) ∧
    Text.FailsAs ['(', ' ', '(', ')', ')'] .emptyExpression := by
  refine ⟨?_, ?_, ?_⟩
  · have hvalue : evaluate ['2', ' ', '3', '+'] = .ok ⟨5, 0⟩ := by decide +kernel
    have hnever : ∀ k, ¬ Text.FailsAs ['2', ' ', '3', '+'] k := by
      rintro k ⟨f, hf, -⟩
      rw [hvalue] at hf
      cases hf
    have hnumbers : (Text.numbers ['2', ' ', '3', '+']).length = 2 := by decide +kernel
    have hoperators : (Text.operators ['2', ' ', '3', '+']).length = 1 := by decide +kernel
    obtain ⟨⟨bench, hrun, -, hlength⟩, -⟩ :=
      ((evaluate_counts _).1 (by decide +kernel) (by decide +kernel)).1 (hnever _) (hnever _)
    rw [hnumbers, hoperators] at hlength
    exact ⟨bench, hrun, hlength⟩
  · exact ((evaluate_counts _).1 (by decide +kernel) (by decide +kernel)).2 (by decide +kernel)
      (by decide +kernel)
  · exact (evaluate_counts _).2.1.mpr ⟨by simp, by decide +kernel⟩

end ExactCalculator
