import ExactCalculator.Proofs.Items

/-!
The sorts of lexemes. A lexeme is a literal, a parenthesis, an operator, or a fault, and a step of a
run is one equation for each. Only a literal can be longer than a byte and still be a token.
-/
namespace ExactCalculator

theorem Lexeme.meaning_mark_of_none {c : Char} (h : Meaning.ofMark? c = none) :
    (Lexeme.mark c).meaning = .error (.invalidCharacter c) := by
  simp only [meaning, h]

theorem Lexeme.meaning_run_of_error {w : Text} {reason : LiteralError}
    (h : Decimal.ofLiteral w = .error reason) :
    (Lexeme.run w).meaning = .error (.malformedLiteral w reason) := by
  simp only [meaning, h]

/-- What can be wrong with a lexeme: a character means nothing, or a run is no literal. -/
theorem Lexeme.meaning_eq_error {l : Lexeme} {cause : Cause} (h : l.meaning = .error cause) :
    (∃ c, l = .mark c ∧ Meaning.ofMark? c = none ∧ cause = .invalidCharacter c) ∨
    ∃ w reason, l = .run w ∧ Decimal.ofLiteral w = .error reason ∧
      cause = .malformedLiteral w reason := by
  cases l with
  | mark c =>
    cases hc : Meaning.ofMark? c with
    | none =>
      rw [meaning_mark_of_none hc] at h
      cases h
      exact .inl ⟨c, rfl, hc, rfl⟩
    | some m =>
      simp only [meaning, hc] at h
      cases h
  | run w =>
    cases hw : Decimal.ofLiteral w with
    | error reason =>
      rw [meaning_run_of_error hw] at h
      cases h
      exact .inr ⟨w, reason, rfl, hw, rfl⟩
    | ok value =>
      simp only [meaning, hw] at h
      cases h

/-- Every lexeme is of one sort. -/
theorem Lexeme.sorts (l : Lexeme) :
    (∃ w value, l = .run w ∧ Decimal.ofLiteral w = .ok value) ∨ l = .mark '(' ∨ l = .mark ')' ∨
    (∃ op : Operator, l = .mark op.symbol) ∨ ∃ cause, l.meaning = .error cause := by
  cases l with
  | run w =>
    cases hw : Decimal.ofLiteral w with
    | ok value => exact .inl ⟨w, value, rfl, hw⟩
    | error reason => exact .inr (.inr (.inr (.inr ⟨_, meaning_run_of_error hw⟩)))
  | mark c =>
    cases hc : Meaning.ofMark? c with
    | none => exact .inr (.inr (.inr (.inr ⟨_, meaning_mark_of_none hc⟩)))
    | some m =>
      unfold Meaning.ofMark? at hc
      split at hc
      · exact .inr (.inl rfl)
      · exact .inr (.inr (.inl rfl))
      · obtain ⟨op, hop, -⟩ := Option.map_eq_some_iff.mp hc
        rw [Operator.ofSymbol?_eq_some_iff.mp hop]
        exact .inr (.inr (.inr (.inl ⟨op, rfl⟩)))

namespace Item

theorem token_run {w : Text} {value : Decimal} (h : Decimal.ofLiteral w = .ok value)
    (offset : Nat) : (Item.mk (.run w) offset).token = .ok ⟨.number value, w, offset⟩ := by
  simp only [token, Lexeme.meaning, h]
  rfl

theorem token_opening (offset : Nat) :
    (Item.mk (.mark '(') offset).token = .ok ⟨.opening, ['('], offset⟩ := rfl

theorem token_closing (offset : Nat) :
    (Item.mk (.mark ')') offset).token = .ok ⟨.closing, [')'], offset⟩ := rfl

theorem token_symbol (op : Operator) (offset : Nat) :
    (Item.mk (.mark op.symbol) offset).token = .ok ⟨.operator op, [op.symbol], offset⟩ := by
  cases op <;> rfl

theorem token_of_error {l : Lexeme} {cause : Cause} (h : l.meaning = .error cause)
    (offset : Nat) : (Item.mk l offset).token = .error ⟨cause, (Item.mk l offset).span⟩ := by
  simp only [token, h]

/-- The fault of an item is that of its lexeme, and blames the whole item. -/
theorem token_eq_error {i : Item} {f : Fault} (h : i.token = .error f) :
    ∃ cause, i.lexeme.meaning = .error cause ∧ f = ⟨cause, i.span⟩ := by
  unfold token at h
  split at h
  next => cases h
  next cause hcause =>
    cases h
    exact ⟨cause, hcause, rfl⟩

theorem kind_of_token_error {i : Item} {f : Fault} (h : i.token = .error f) :
    f.kind = .invalidCharacter ∨ f.kind = .malformedLiteral := by
  obtain ⟨cause, hcause, rfl⟩ := token_eq_error h
  obtain ⟨c, -, -, rfl⟩ | ⟨w, reason, -, -, rfl⟩ := Lexeme.meaning_eq_error hcause
  · exact .inl rfl
  · exact .inr rfl

theorem span_opening (offset : Nat) : (Item.mk (.mark '(') offset).span = .single offset := rfl

theorem span_closing (offset : Nat) : (Item.mk (.mark ')') offset).span = .single offset := rfl

theorem span_symbol (op : Operator) (offset : Nat) :
    (Item.mk (.mark op.symbol) offset).span = .single offset := by
  cases op <;> rfl

def isNumber (i : Item) : Bool :=
  match i.token with
  | .ok ⟨.number _, _, _⟩ => true
  | _ => false

/-- Only a run is a number. -/
theorem eq_run_of_isNumber {i : Item} (h : i.isNumber = true) :
    ∃ w offset, i = ⟨.run w, offset⟩ := by
  obtain ⟨l, offset⟩ := i
  obtain ⟨w, value, rfl, -⟩ | rfl | rfl | ⟨op, rfl⟩ | ⟨cause, hcause⟩ := l.sorts
  · exact ⟨w, offset, rfl⟩
  · cases h
  · cases h
  · rw [isNumber, token_symbol] at h
    cases h
  · rw [isNumber, token_of_error hcause] at h
    cases h

theorem isNumber_run {w : Text} {value : Decimal} (h : Decimal.ofLiteral w = .ok value)
    (offset : Nat) : (Item.mk (.run w) offset).isNumber = true := by
  rw [isNumber, token_run h]

theorem isNumber_opening (offset : Nat) : (Item.mk (.mark '(') offset).isNumber = false := rfl

theorem isNumber_closing (offset : Nat) : (Item.mk (.mark ')') offset).isNumber = false := rfl

theorem isNumber_symbol (op : Operator) (offset : Nat) :
    (Item.mk (.mark op.symbol) offset).isNumber = false := by
  rw [isNumber, token_symbol]

end Item

def Text.numbers (t : Text) : List Item := t.items.filter Item.isNumber

end ExactCalculator
