import ExactCalculator.Proofs.Diagnosis

/-!
A fault that ends the reading of a text is final. More text behind it changes nothing, since reading
goes item by item; only the last item can be another one in the longer text, when it is a run of
digits and points and the text behind goes on with one. A run that is a literal ends no reading, so
the exception is a malformed literal at the very end (`Fault.GoesOn`), and there the fault always
changes.
-/
namespace ExactCalculator

/-- A malformed literal at the end of a text that is continued by the text behind. -/
def Fault.GoesOn (f : Fault) (t u : Text) : Prop :=
  (∃ w reason, f.cause = .malformedLiteral w reason) ∧ f.span.stop = Text.byteLength t ∧
    ∃ c ∈ u.head?, isNumeral c = true

namespace Text

/-- A text ends with a longest run of digits and points, which may be empty. -/
theorem exists_trailing_run (t : Text) : ∃ before w, t = before ++ w ∧
    (∀ c ∈ w, isNumeral c = true) ∧ ∀ c ∈ before.getLast?, isNumeral c = false := by
  refine ⟨(t.reverse.dropWhile isNumeral).reverse, (t.reverse.takeWhile isNumeral).reverse,
    ?_, ?_, ?_⟩
  · rw [← List.reverse_append, List.takeWhile_append_dropWhile, List.reverse_reverse]
  · intro c hc
    exact List.all_eq_true.mp List.all_takeWhile c (List.mem_reverse.mp hc)
  · intro c hc
    have hhead := List.head?_dropWhile_not isNumeral t.reverse
    rw [List.getLast?_reverse] at hc
    rw [Option.mem_def.mp hc] at hhead
    simpa using hhead

/-- Reading that ended does not go on in a longer text. -/
theorem state_append {t : Text} {halt : Halt} (h : t.state = .error halt) {u : Text}
    (hgoes : ¬ halt.fault.GoesOn t u) : (t ++ u).state = .error halt := by
  unfold state at h ⊢
  rw [items_eq_itemsAt] at h ⊢
  by_cases hseam : Seam t u
  · rw [itemsAt_append hseam, State.readAll_append, h]
    rfl
  · -- A run reaches over the seam, and all items in front of it are those of both texts.
    obtain ⟨before, w, rfl, hw, hbefore⟩ := t.exists_trailing_run
    obtain ⟨hlast, hfirst⟩ := not_or.mp hseam
    have hne : w ≠ [] := by
      rintro rfl
      rw [List.append_nil] at hlast
      exact hlast hbefore
    have hitems : itemsAt 0 (before ++ w) = itemsAt 0 before ++ [⟨.run w, byteLength before⟩] := by
      have hrun := itemsAt_run hne hw (t := []) (by simp [NoNumeralFirst]) (0 + byteLength before)
      rw [List.append_nil, itemsAt_nil] at hrun
      rw [itemsAt_append (.inl hbefore), hrun, Nat.zero_add]
    rw [hitems, State.readAll_append] at h
    rw [List.append_assoc, itemsAt_append (.inl hbefore), State.readAll_append]
    cases hread : State.start.readAll (itemsAt 0 before) with
    | error earlier =>
      rw [hread] at h
      cases h
      rfl
    | ok s =>
      rw [hread, ok_bind, State.readAll_singleton] at h
      cases hvalue : Decimal.ofLiteral w with
      | ok value =>
        rw [State.read_run hvalue] at h
        cases h
      | error reason =>
        rw [State.read_of_error (Lexeme.meaning_run_of_error hvalue)] at h
        cases h
        refine absurd ⟨⟨w, reason, rfl⟩, (byteLength_append before w).symm, ?_⟩ hgoes
        simpa [NoNumeralFirst] using hfirst

/-- A malformed literal is no longer the fault when the text behind goes on with it. -/
theorem evaluate_append_ne_of_goesOn {t u : Text} {f : Fault} (h : f.GoesOn t u) :
    evaluate (t ++ u) ≠ .error f := by
  intro hf
  obtain ⟨⟨w, reason, hcause⟩, hstop, c, hc, hnumeral⟩ := h
  obtain ⟨cause, span⟩ := f
  cases hcause
  obtain hblames | hempty := evaluate_blames hf
  · cases hblames with
    | item hi htoken =>
      obtain ⟨-, -, ⟨before, run, behind, htext, hspan, -, -, -, hbehind⟩, -⟩ :=
        points_of_token_error hi htoken
      -- The blamed run ends where the first text does, so the other one begins right behind it.
      have hfront : before ++ run = t := by
        refine eq_of_byteLength_eq ⟨behind, by rw [List.append_assoc]; exact htext.symm⟩
          (List.prefix_append _ _) ?_
        rw [byteLength_append, ← hstop]
        exact (congrArg Span.stop hspan).symm
      rw [← List.append_assoc, hfront] at htext
      rw [List.append_cancel_left htext] at hc
      rw [hbehind c hc] at hnumeral
      cases hnumeral
  · cases hempty

end Text

/-- A fault that ends the reading of a text is that of every longer text, unless it is a malformed
literal that goes on there. -/
theorem evaluate_append_iff {t : Text} {halt : Halt} (h : t.state = .error halt) (u : Text) :
    evaluate t = .error halt.fault ∧
      (evaluate (t ++ u) = .error halt.fault ↔ ¬ halt.fault.GoesOn t u) := by
  refine ⟨congrArg Outcome.result (Text.run_of_state_error h), ?_, ?_⟩
  · intro hf hgoes
    exact Text.evaluate_append_ne_of_goesOn hgoes hf
  · intro hgoes
    exact congrArg Outcome.result (Text.run_of_state_error (Text.state_append h hgoes))

/-- In `3*+` the product fails before the text ends, whatever follows, and in `.` a digit that
follows makes a literal of the point. -/
theorem evaluate_append_iff_instances :
    evaluate ['3', '*', '+', '5', 'é'] = .error ⟨.missingOperand .star, ⟨1, 2⟩⟩ ∧
    evaluate ['.', '5'] ≠ .error ⟨.malformedLiteral ['.'] .noDigits, ⟨0, 1⟩⟩ := by
  constructor
  · have hstate : Text.state ['3', '*', '+'] = .error ⟨⟨.missingOperand .star, ⟨1, 2⟩⟩, []⟩ := by
      decide +kernel
    refine (evaluate_append_iff hstate ['5', 'é']).2.mpr ?_
    rintro ⟨⟨w, reason, hcause⟩, -⟩
    cases hcause
  · have hstate : Text.state ['.'] =
        .error ⟨⟨.malformedLiteral ['.'] .noDigits, ⟨0, 1⟩⟩, []⟩ := by
      decide +kernel
    intro h
    exact (evaluate_append_iff hstate ['5']).2.mp h ⟨⟨_, _, rfl⟩, rfl, '5', rfl, rfl⟩

end ExactCalculator
