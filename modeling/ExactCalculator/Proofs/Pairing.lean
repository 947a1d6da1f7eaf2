import ExactCalculator.Proofs.Run.Blame
import ExactCalculator.Proofs.Run.Ending

/-!
A parenthesis that is blamed has no partner. Of the closing ones it is the first such, since reading
stops there; of the opening ones the last, since that one is on top of what waits at the end. A run
that comes to counting the operands left has paired all parentheses (`evaluate_blames_stray`).
-/
namespace ExactCalculator

/-- Behind this text, a closing parenthesis is the first one without a partner. -/
structure Text.BeforeStray (before : Text) : Prop where
  balanced : before.Balanced
  stray : ¬ before.PartnerBefore
  first : ∀ earlier between : Text, before = earlier ++ ')' :: between → earlier.PartnerBefore

/-- Between these texts, an opening parenthesis is the last one without a partner, and nowhere is
more closed than was opened. -/
structure Text.AroundStray (before behind : Text) : Prop where
  closable : Closable (before ++ '(' :: behind)
  balanced : behind.Balanced
  stray : ¬ behind.PartnerBehind
  last : ∀ between later : Text, behind = between ++ '(' :: later → later.PartnerBehind

/-- Between these texts, a parenthesis of this side is the one to blame. -/
def Side.Stray : Side → Text → Text → Prop
  | .closing, before, _ => before.BeforeStray
  | .opening, before, behind => before.AroundStray behind

namespace Text

theorem Balanced.beforeStray {before : Text} (h : before.Balanced) : before.BeforeStray where
  balanced := h
  stray := h.not_partnerBefore
  first := by
    rintro earlier between rfl
    exact h.closable.partnerBefore

theorem Closable.aroundStray {before behind : Text} (h : before.Closable)
    (hbehind : behind.Balanced) : before.AroundStray behind where
  closable := h.append hbehind.closable.opening
  balanced := hbehind
  stray := hbehind.not_partnerBehind
  last := by
    rintro between later rfl
    exact hbehind.partnerBehind

/-- Only a parenthesis without a partner is blamed for that. -/
theorem Ending.stray {t : Text} {f : Fault} (h : t.Ending (.error f)) {side : Side}
    (hcause : f.cause = .unmatchedParen side) :
    ∃ before behind : Text, t = before ++ side.symbol :: behind ∧
      f.span = .single (byteLength before) ∧ side.Stray before behind := by
  have hkind : f.kind = .unmatchedParen := congrArg Cause.kind hcause
  generalize hr : Except.error f = r at h
  cases h with
  | item hi htoken =>
    cases hr
    obtain hother | hother := Item.kind_of_token_error htoken
    · simp [hkind] at hother
    · simp [hkind] at hother
  | fold hfold =>
    cases hr
    simp [Fault.OfFold, hkind] at hfold
  | closing ht hbefore =>
    cases hr
    cases hcause
    exact ⟨_, _, ht, rfl, hbefore.beforeStray⟩
  | opening ht hbefore hbehind =>
    cases hr
    cases hcause
    exact ⟨_, _, ht, rfl, hbefore.aroundStray hbehind⟩
  | @counted bench =>
    have hcount := bench.isCount_result (byteLength t)
    simp [← hr, IsCount, hkind] at hcount

end Text

/-- A parenthesis that is blamed has no partner: it is the first closing one without, or the last
opening one without. A text whose operands are counted has all parentheses paired. -/
theorem evaluate_blames_stray (t : Text) :
    (∀ side span, evaluate t = .error ⟨.unmatchedParen side, span⟩ →
      ∃ before behind : Text, t = before ++ side.symbol :: behind ∧
        span = .single (Text.byteLength before) ∧ side.Stray before behind) ∧
    (IsCount (evaluate t) → t.Balanced) := by
  constructor
  · intro side span h
    have hending := t.evaluate_ending
    rw [h] at hending
    exact hending.stray rfl
  · intro h
    exact (Text.counted_of_isCount h).2.2

/-- In `(1))2(` the second closing parenthesis is blamed, in `((1)+2` the first opening one, and
`2(3)` has all its parentheses paired. -/
theorem evaluate_blames_stray_instances :
    (∃ before behind : Text, ['(', '1', ')', ')', '2', '('] = before ++ ')' :: behind ∧
      (⟨3, 4⟩ : Span) = .single (Text.byteLength before) ∧ before.BeforeStray) ∧
    (∃ before behind : Text, ['(', '(', '1', ')', '+', '2'] = before ++ '(' :: behind ∧
      (⟨0, 1⟩ : Span) = .single (Text.byteLength before) ∧ before.AroundStray behind) ∧
    Text.Balanced ['2', '(', '3', ')'] := by
  refine ⟨?_, ?_, ?_⟩
  · exact (evaluate_blames_stray _).1 .closing ⟨3, 4⟩ (by decide +kernel)
  · exact (evaluate_blames_stray _).1 .opening ⟨0, 1⟩ (by decide +kernel)
  · have hdangling : evaluate ['2', '(', '3', ')'] = .error ⟨.danglingOperand, ⟨2, 3⟩⟩ := by
      decide +kernel
    refine (evaluate_blames_stray _).2 ?_
    rw [hdangling]
    exact .inr rfl

end ExactCalculator
