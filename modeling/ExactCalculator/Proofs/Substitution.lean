import ExactCalculator.Proofs.Run.Frame

/-!
Equals for equals. Inside any text a group can be exchanged for a group of the same value, and a
literal for an equal literal, and nobody but the spans of the faults will notice. Up to the exchange
both texts are read alike, the exchanged parts leave one operand each (`PutsOperands`), and from
there on the two runs differ only in how operands of one worth are scaled (`Likeness.sameWorth`).
-/
namespace ExactCalculator

def SameAnswer : Except Fault Decimal → Except Fault Decimal → Prop :=
  ExceptRelated (fun f g => f.kind = g.kind ∧ f.message = g.message) Eq

theorem sameAnswer_refl (r : Except Fault Decimal) : SameAnswer r r := by
  cases r with
  | ok v => exact .ok rfl
  | error f => exact .error ⟨rfl, rfl⟩

namespace Likeness

variable {L : Likeness}

/-- Alike outcomes give one answer. -/
theorem Outcomes.sameAnswer {m n : Nat} {r r' : Except Fault Decimal} (h : L.Outcomes m n r r') :
    SameAnswer r r' := by
  cases h with
  | ok h => exact .ok h
  | error h =>
    obtain ⟨hcause, -⟩ | ⟨rfl, rfl⟩ := h
    · exact .error ⟨congrArg Cause.kind hcause, congrArg Cause.message hcause⟩
    · exact .error ⟨rfl, rfl⟩

/-- States with the same things waiting, in which two newest operands are worth the same. -/
theorem states_sameWorth {x y : Operand} (h : x.value.toRat = y.value.toRat)
    (pending : List Pending) (operands : List Operand) (folds folds' : List Fold) :
    sameWorth.States ⟨pending, ⟨x :: operands, folds⟩⟩ ⟨pending, ⟨y :: operands, folds'⟩⟩ := by
  refine ⟨List.forall₂_same.mpr ?_, .cons ⟨h, trivial, trivial⟩ ?_, trivial⟩
  · intro p _
    cases p with
    | paren offset => exact .paren ⟨trivial, trivial⟩
    | operator op offset => exact .operator ⟨trivial, trivial⟩
  · refine List.forall₂_same.mpr ?_
    intro y _
    exact ⟨rfl, trivial, trivial⟩

theorem items_sameWorth (t : Text) (m n : Nat) :
    List.Forall₂ sameWorth.Items (t.itemsAt m) (t.itemsAt n) := by
  rw [Text.itemsAt_eq_map, Text.itemsAt_eq_map t n, List.forall₂_map_left_iff,
    List.forall₂_map_right_iff]
  refine List.forall₂_same.mpr ?_
  intro i _
  exact ⟨rfl, trivial, trivial⟩

end Likeness

/-- Wherever they begin and whatever the state, two texts are read as one operand each, and the two
operands are worth the same. -/
def PutsOperands (t u : Text) : Prop :=
  ∀ (s : State) (offset : Nat), ∃ x y folds folds', x.value.toRat = y.value.toRat ∧
    s.readAll (t.itemsAt offset) = .ok ⟨s.pending, ⟨x :: s.bench.operands, folds⟩⟩ ∧
    s.readAll (u.itemsAt offset) = .ok ⟨s.pending, ⟨y :: s.bench.operands, folds'⟩⟩

/-- Such texts can be exchanged where they touch no run of digits and points. -/
theorem PutsOperands.sameAnswer {t u : Text} (h : PutsOperands t u) {before after : Text}
    (ht : Text.Seam before (t ++ after)) (ht' : Text.Seam t after)
    (hu : Text.Seam before (u ++ after)) (hu' : Text.Seam u after) :
    SameAnswer (evaluate (before ++ (t ++ after))) (evaluate (before ++ (u ++ after))) := by
  rw [evaluate_eq, evaluate_eq]
  unfold Text.state
  rw [Text.items_eq_itemsAt, Text.items_eq_itemsAt, Text.itemsAt_append ht, Text.itemsAt_append hu,
    Text.itemsAt_append ht', Text.itemsAt_append hu', State.readAll_append, State.readAll_append]
  cases State.start.readAll (before.itemsAt 0) with
  | error halt => exact sameAnswer_refl (.error halt.fault)
  | ok s =>
    obtain ⟨x, y, folds, folds', hxy, hx, hy⟩ := h s (0 + Text.byteLength before)
    rw [ok_bind, ok_bind, State.readAll_append, State.readAll_append, hx, hy]
    have hread := Likeness.readAll_alike (Likeness.items_sameWorth after
      (0 + Text.byteLength before + Text.byteLength t)
      (0 + Text.byteLength before + Text.byteLength u))
      (Likeness.states_sameWorth hxy s.pending s.bench.operands folds folds')
    exact (Likeness.resultOf_alike (hread.bind fun _ _ h => Likeness.finish_alike h) _ _).sameAnswer

theorem putsOperands_group {e e' : Text} {v w : Decimal} (he : evaluate e = .ok v)
    (he' : evaluate e' = .ok w) (h : v.sameValue w = true) : PutsOperands e.group e'.group := by
  intro s offset
  obtain ⟨x, folds, hx, rfl⟩ := evaluate_eq_ok he
  obtain ⟨y, folds', hy, rfl⟩ := evaluate_eq_ok he'
  rw [Decimal.sameValue_iff_toRat, Decimal.toRat_normalized, Decimal.toRat_normalized] at h
  obtain ⟨noted, hread⟩ := State.readAll_itemsAt_group hx s offset
  obtain ⟨noted', hread'⟩ := State.readAll_itemsAt_group hy s offset
  exact ⟨x.shift (offset + 1), y.shift (offset + 1), noted, noted', h, hread, hread'⟩

theorem putsOperands_literal {e e' : Text} (he : e.IsLiteral) (he' : e'.IsLiteral)
    (h : e.literalValue = e'.literalValue) : PutsOperands e e' := by
  intro s offset
  refine ⟨_, _, _, _, ?_, State.readAll_literal he s offset, State.readAll_literal he' s offset⟩
  rw [Text.toRat_literalDecimal, Text.toRat_literalDecimal, h]

/-- Inside any text, groups of one value can be exchanged, and so can literals of one value that
are no part of a longer run of digits and points. -/
theorem evaluate_exchange (e e' before after : Text) :
    (∀ v w, evaluate e = .ok v → evaluate e' = .ok w → v.sameValue w = true →
      SameAnswer (evaluate (before ++ (e.group ++ after)))
        (evaluate (before ++ (e'.group ++ after)))) ∧
    (e.IsLiteral → e'.IsLiteral → e.literalValue = e'.literalValue →
      (∀ c ∈ before.getLast?, isNumeral c = false) → (∀ c ∈ after.head?, isNumeral c = false) →
      SameAnswer (evaluate (before ++ (e ++ after))) (evaluate (before ++ (e' ++ after)))) := by
  constructor
  · intro v w he he' h
    exact (putsOperands_group he he' h).sameAnswer (.to_group _ _ _) (.of_group _ _)
      (.to_group _ _ _) (.of_group _ _)
  · intro he he' h hbefore hafter
    exact (putsOperands_literal he he' h).sameAnswer (.inl hbefore) (.inr hafter) (.inl hbefore)
      (.inr hafter)

/-- In `3*(2 1 /)+` the group can be exchanged for `(2.0)`, and in `3*7.` the literal for `007`. -/
theorem evaluate_exchange_instances :
    SameAnswer (evaluate ['3', '*', '(', '2', ' ', '1', '/', ')', '+'])
      (evaluate ['3', '*', '(', '2', '.', '0', ')', '+']) ∧
    SameAnswer (evaluate ['3', '*', '7', '.']) (evaluate ['3', '*', '0', '0', '7']) :=
  ⟨(evaluate_exchange ['2', ' ', '1', '/'] ['2', '.', '0'] ['3', '*'] ['+']).1 ⟨2, 0⟩ ⟨2, 0⟩
      (by decide +kernel) (by decide +kernel) (by decide +kernel),
    (evaluate_exchange ['7', '.'] ['0', '0', '7'] ['3', '*'] []).2 (by decide) (by decide)
      (by decide +kernel) (by simp [isNumeral]) (by simp)⟩

end ExactCalculator
