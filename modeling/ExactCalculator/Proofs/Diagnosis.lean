import ExactCalculator.Proofs.Places
import ExactCalculator.Proofs.Run.Blame

/-!
Faults point at what they name. The range of a fault lies inside of the text, with both ends between
characters, and under it stands the character, literal, parenthesis or operator that the fault
names, or a block of numbers (`evaluate_points_into`). This joins two things: which items a fault
blames (`evaluate_blames`), and that an item is the text under its range.
-/
namespace ExactCalculator

def Fault.PointsInto (t : Text) (f : Fault) : Prop :=
  (∃ w, t.slice? f.span = some w) ∧
    match f.cause with
    | .invalidCharacter c =>
      t.slice? f.span = some [c] ∧ c ≠ ' ' ∧ c.isDigit = false ∧
        c ∉ ['.', '+', '-', '*', '/', '(', ')']
    | .malformedLiteral w reason =>
      t.slice? f.span = some w ∧ t.IsLongestRun f.span ∧ Decimal.ofLiteral w = .error reason
    | .unmatchedParen .opening => t.slice? f.span = some ['(']
    | .unmatchedParen .closing => t.slice? f.span = some [')']
    | .missingOperand op => t.slice? f.span = some [op.symbol]
    | .divisionByZero => ∃ front, Bridges front t.numbers f.span
    | .danglingOperand =>
      (∃ front, Bridges front t.numbers f.span) ∧
        ∃ first ∈ t.numbers.head?, first.span.stop < f.span.start
    | .emptyExpression => f.span = ⟨0, Text.byteLength t⟩

namespace Text

variable {t : Text}

/-- The fault of an item shows the item. -/
theorem points_of_token_error {i : Item} (hi : i ∈ t.items) {f : Fault}
    (h : i.token = .error f) : f.PointsInto t := by
  have hslice := slice?_span_of_mem_items hi
  obtain ⟨before, behind, ht, hspan, hfits⟩ := mem_items hi
  obtain ⟨cause, hcause, rfl⟩ := Item.token_eq_error h
  obtain ⟨l, offset⟩ := i
  obtain ⟨c, rfl, hc, rfl⟩ | ⟨w, reason, rfl, hw, rfl⟩ := Lexeme.meaning_eq_error hcause
  · have hnumeral : c.isDigit = false ∧ c ≠ '.' := by simpa [isNumeral] using hfits.2
    refine ⟨⟨_, hslice⟩, hslice, hfits.1, hnumeral.1, ?_⟩
    intro hmem
    simp only [List.mem_cons, List.not_mem_nil, or_false] at hmem
    obtain hpoint | rfl | rfl | rfl | rfl | rfl | rfl := hmem
    · exact hnumeral.2 hpoint
    all_goals cases hc
  · exact ⟨⟨w, hslice⟩, hslice, ⟨before, w, behind, ht, hspan, hfits⟩, hw⟩

/-- From a number to the same or a later one there is a text. -/
theorem slice?_of_bridges {front : List Item} {s : Span} (h : Bridges front t.numbers s) :
    ∃ w, t.slice? s = some w := by
  obtain ⟨block, behind, hnumbers, first, hfirst, last, hlast, rfl⟩ := h
  have hsub : block.Sublist t.numbers := by
    rw [hnumbers]
    exact (List.sublist_append_left _ _).trans (List.sublist_append_right _ _)
  have hitems : ∀ i ∈ block, i ∈ t.items :=
    fun i hi => (List.mem_filter.mp (hsub.subset hi)).1
  have hpairwise := (numbers_pairwise t).sublist hsub
  cases block with
  | nil => cases hfirst
  | cons i rest =>
    cases hfirst
    have hlastMem : last ∈ first :: rest := List.mem_of_getLast? hlast
    refine slice?_join (slice?_span_of_mem_items (hitems _ List.mem_cons_self))
      (slice?_span_of_mem_items (hitems _ hlastMem)) ?_
    have hfirst := span_start_lt_stop (hitems first List.mem_cons_self)
    obtain rfl | hrest := List.mem_cons.mp hlastMem
    · exact Nat.le_of_lt hfirst
    · have hlt := (List.pairwise_cons.mp hpairwise).1 last hrest
      have := span_start_lt_stop (hitems last hlastMem)
      omega

/-- What stands in front of a block of numbers ends before it begins. -/
theorem first_stop_lt_of_bridges {front : List Item} {s : Span} (h : Bridges front t.numbers s)
    (hfront : front ≠ []) : ∃ first ∈ t.numbers.head?, first.span.stop < s.start := by
  obtain ⟨block, behind, hnumbers, first, hfirst, last, -, rfl⟩ := h
  obtain ⟨i, rest, rfl⟩ := List.exists_cons_of_ne_nil hfront
  have hpairwise := numbers_pairwise t
  rw [hnumbers] at hpairwise ⊢
  refine ⟨i, rfl, ?_⟩
  have hmem : first ∈ block ++ behind := List.mem_append_left _ (List.mem_of_head? hfirst)
  exact (List.pairwise_append.mp hpairwise).2.2 i List.mem_cons_self first hmem

end Text

/-- Every fault points at what it names. -/
theorem evaluate_points_into {t : Text} {f : Fault} (h : evaluate t = .error f) :
    f.PointsInto t := by
  obtain hblames | rfl := evaluate_blames h
  · cases hblames with
    | item hi h => exact Text.points_of_token_error hi h
    | @paren side offset hi =>
      have hslice := Text.slice?_span_of_mem_items hi
      cases side with
      | opening =>
        rw [Side.symbol, Item.span_opening] at hslice
        exact ⟨⟨_, hslice⟩, hslice⟩
      | closing =>
        rw [Side.symbol, Item.span_closing] at hslice
        exact ⟨⟨_, hslice⟩, hslice⟩
    | operator hi =>
      have hslice := Text.slice?_span_of_mem_items hi
      rw [Item.span_symbol] at hslice
      exact ⟨⟨_, hslice⟩, hslice⟩
    | divisor hbridges => exact ⟨Text.slice?_of_bridges hbridges, _, hbridges⟩
    | dangling hfront hbridges =>
      exact ⟨Text.slice?_of_bridges hbridges, ⟨_, hbridges⟩,
        Text.first_stop_lt_of_bridges hbridges hfront⟩
  · exact ⟨⟨t, t.slice?_whole⟩, rfl⟩

/-- In `1 (2 3-)` the value of the group dangles, and in ` 7é` a character of two bytes is blamed.
-/
theorem evaluate_points_into_instances :
    Fault.PointsInto ['1', ' ', '(', '2', ' ', '3', '-', ')'] ⟨.danglingOperand, ⟨3, 6⟩⟩ ∧
    Fault.PointsInto [' ', '7', 'é'] ⟨.invalidCharacter 'é', ⟨2, 4⟩⟩ :=
  ⟨evaluate_points_into (by decide +kernel), evaluate_points_into (by decide +kernel)⟩

end ExactCalculator
