import ExactCalculator.Proofs.Decimal.Written
import ExactCalculator.Proofs.Evaluation
import ExactCalculator.Proofs.Run.Frame

/-!
Decimals written out and evaluated. The written form of a decimal that is not negative is a literal
and evaluates to its normal form. A negative one begins with a minus sign that has no left operand;
with a zero in front it is a difference, which has the same normal form. So a value that is printed
and evaluated comes back unchanged (`evaluate_render`).
-/
namespace ExactCalculator

open Expression

/-- A literal alone is an expression. -/
theorem evaluate_literal {t : Text} (h : t.IsLiteral) :
    evaluate t = .ok t.literalDecimal.normalized := by
  rw [evaluate_eq, state_bind_finish (.ofTerm (.ofFactor (.literal h)))]
  rfl

/-- Zero minus a literal is the opposite of the literal. -/
theorem evaluate_zero_minus {t : Text} (h : t.IsLiteral) :
    evaluate ('0' :: '-' :: t) = .ok (-t.literalDecimal).normalized := by
  have hspelled : Spelled .expr 0 (['0'] ++ Operator.minus.symbol :: t)
      (.binary .minus 1 (.literal ['0'] 0) (.literal t 2)) :=
    .sum (.inr rfl) (.ofTerm (.ofFactor (.literal (by decide)))) (.ofFactor (.literal h))
  have hzero : Text.literalValue ['0'] = 0 := by
    rw [← Text.toRat_literalDecimal, Decimal.toRat_eq_zero_iff]
    rfl
  have hopposite : (Text.literalDecimal ['0'] - t.literalDecimal).normalized =
      (-t.literalDecimal).normalized := by
    rw [Decimal.normalized_eq_iff, Decimal.toRat_sub, Decimal.toRat_neg,
      Text.toRat_literalDecimal, hzero, zero_sub]
  change evaluate (['0'] ++ Operator.minus.symbol :: t) = _
  rw [evaluate_eq, state_bind_finish hspelled, ← hopposite]
  rfl

/-- A minus sign in front of a literal has no left operand. -/
theorem evaluate_minus {t : Text} (h : t.IsLiteral) :
    evaluate ('-' :: t) = .error ⟨.missingOperand .minus, .single 0⟩ := by
  have hitems : Text.items ('-' :: t) = ⟨.mark '-', 0⟩ :: t.itemsAt 1 :=
    Text.itemsAt_mark (by decide) (by decide) 0 t
  have hread : State.start.read ⟨.mark '-', 0⟩ = .ok ⟨[.operator .minus 0], .empty⟩ :=
    State.read_symbol .minus .start 0
  rw [evaluate_eq, Text.state, hitems, State.readAll_cons, hread, ok_bind,
    State.readAll_literal h]
  rfl

theorem evaluate_render_of_nonneg {v : Decimal} (h : 0 ≤ v.toRat) :
    evaluate v.render = .ok v.normalized := by
  obtain ⟨hrender, hvalue⟩ := Decimal.render_of_nonneg h
  rw [hrender, evaluate_literal v.renderMagnitude_writes.1, hvalue]

theorem evaluate_render_of_neg {v : Decimal} (h : v.toRat < 0) :
    evaluate v.render = .error ⟨.missingOperand .minus, .single 0⟩ ∧
      evaluate ('0' :: v.render) = .ok v.normalized := by
  obtain ⟨hrender, hvalue⟩ := Decimal.render_of_neg h
  have hliteral := v.renderMagnitude_writes.1
  rw [hrender, evaluate_minus hliteral, evaluate_zero_minus hliteral, hvalue]
  exact ⟨rfl, rfl⟩

/-- A decimal that is not negative is evaluated from its written form to its normal form. A negative
one is refused for want of an operand of the minus sign, and is evaluated so with a zero in front.
Hence the value of a text, if it is not negative, is evaluated to itself from its written form. -/
theorem evaluate_render :
    (∀ v : Decimal,
      (0 ≤ v.toRat → evaluate v.render = .ok v.normalized) ∧
      (v.toRat < 0 → evaluate v.render = .error ⟨.missingOperand .minus, .single 0⟩ ∧
        evaluate ('0' :: v.render) = .ok v.normalized)) ∧
    ∀ (t : Text) (v : Decimal), evaluate t = .ok v → 0 ≤ v.toRat → evaluate v.render = .ok v := by
  refine ⟨fun v => ⟨evaluate_render_of_nonneg, evaluate_render_of_neg⟩, ?_⟩
  intro t v hv hsign
  obtain ⟨x, folds, -, rfl⟩ := evaluate_eq_ok hv
  rw [evaluate_render_of_nonneg hsign, Decimal.normalized_normalized]

/-- `0.0500` comes back as `0.05`, `-20.0` with a zero in front as `-20`, and the value of `2 3*`
as itself. -/
theorem evaluate_render_instances :
    evaluate (Decimal.render ⟨500, 4⟩) = .ok ⟨5, 2⟩ ∧
    evaluate ('0' :: Decimal.render ⟨-200, 1⟩) = .ok ⟨-20, 0⟩ ∧
    evaluate (Decimal.render ⟨6, 0⟩) = .ok ⟨6, 0⟩ := by
  have hproduct : evaluate ['2', ' ', '3', '*'] = .ok ⟨6, 0⟩ := by decide +kernel
  refine ⟨?_, ?_, ?_⟩
  · exact (evaluate_render.1 ⟨500, 4⟩).1 (by norm_num [Decimal.toRat])
  · exact ((evaluate_render.1 ⟨-200, 1⟩).2 (by norm_num [Decimal.toRat])).2
  · exact evaluate_render.2 _ _ hproduct (by norm_num [Decimal.toRat])

end ExactCalculator
