import ExactCalculator.Proofs.Balance
import ExactCalculator.Proofs.Run.Steps

/-!
How a run over a text ends. The parentheses that wait are exactly the opening ones of the text read
so far that have no partner (`readAll_unclosed`), though they wait on one stack with the operators.
So every run ends in one of five ways (`Text.evaluate_ending`): at a faulty item, in a fold, at a
closing parenthesis behind a balanced text, for an opening one in front of a balanced text, or, with
all items read and all parentheses paired, by counting the operands that are left.
-/
namespace ExactCalculator

/-- The offsets of the parentheses among the entries that wait. -/
def openings : List Pending → List Nat
  | [] => []
  | .paren offset :: below => offset :: openings below
  | .operator _ _ :: below => openings below

@[simp] theorem openings_nil : openings [] = [] := rfl
@[simp] theorem openings_paren (offset : Nat) (below : List Pending) :
    openings (.paren offset :: below) = offset :: openings below := rfl
@[simp] theorem openings_operator (op : Operator) (offset : Nat) (below : List Pending) :
    openings (.operator op offset :: below) = openings below := rfl

def Text.Lexes (t : Text) : Prop := ∀ i ∈ t.items, ∃ token, i.token = .ok token

instance (t : Text) : Decidable t.Lexes :=
  decidable_of_iff (∀ i ∈ t.items, i.token.isOk = true)
    (forall₂_congr fun i _ => by cases i.token <;> simp [Except.isOk, Except.toBool])

/-- An operand was missing, or a divisor was zero. -/
def Fault.OfFold (f : Fault) : Prop := f.kind = .missingOperand ∨ f.kind = .divisionByZero

namespace Text

/-- Digits and points are no parentheses. -/
theorem balanced_of_numeral {w : Text} (h : ∀ c ∈ w, isNumeral c = true) : w.Balanced := by
  refine balanced_of_not_mem (fun hmem => ?_) fun hmem => ?_
  · exact absurd (h _ hmem) (by decide)
  · exact absurd (h _ hmem) (by decide)

theorem balanced_space : Balanced [' '] := by decide

theorem balanced_symbol (op : Operator) : Balanced [op.symbol] := by cases op <;> decide

end Text

namespace State

/-- Unwinding takes no parenthesis away. -/
theorem openings_unwind {among : Operator → Bool} {pending : List Pending} {b : Bench} {s : State}
    (h : unwind among pending b = .ok s) : openings s.pending = openings pending :=
  unwind_invariant (motive := fun s => openings s.pending = openings pending)
    (fun _ _ _ _ _ hs _ => hs) rfl h

theorem ofFold_of_unwind_error {among : Operator → Bool} {pending : List Pending} {b : Bench}
    {halt : Halt} (h : unwind among pending b = .error halt) : halt.fault.OfFold := by
  obtain ⟨op, offset, -, bench, -, hfold⟩ :=
    unwind_eq_error (motive := fun _ => True) (fun _ _ _ _ _ _ _ => trivial) trivial h
  obtain ⟨_, _, _, -, -, rfl⟩ | rfl := Bench.fold_eq_error hfold
  · exact .inr rfl
  · exact .inl rfl

/-- One item: what waits of the parentheses stays what is unclosed in the text. -/
theorem read_unclosed {before : Text} {s after : State}
    (hs : before.Unclosed (openings s.pending)) {l : Lexeme}
    (hl : ∀ w, l = .run w → ∀ c ∈ w, isNumeral c = true)
    (h : s.read ⟨l, Text.byteLength before⟩ = .ok after) :
    Text.Unclosed (before ++ l.text) (openings after.pending) := by
  obtain ⟨w, value, rfl, hvalue⟩ | rfl | rfl | ⟨op, rfl⟩ | ⟨cause, hcause⟩ := l.sorts
  · rw [read_run hvalue] at h
    cases h
    exact hs.append (Text.balanced_of_numeral (hl w rfl))
  · rw [read_opening] at h
    cases h
    exact hs.opening (Text.balanced_of_not_mem (by simp) (by simp))
  · rw [read_closing] at h
    obtain ⟨ended, hend, hdrop⟩ := bind_eq_ok.mp h
    obtain ⟨m, rfl⟩ := dropParen_eq_ok hdrop
    rw [← openings_unwind hend] at hs
    exact hs.close
  · rw [read_symbol] at h
    obtain ⟨given, hgive, hpush⟩ := bind_eq_ok.mp h
    cases hpush
    rw [← openings_unwind hgive] at hs
    exact hs.append (Text.balanced_symbol op)
  · rw [read_of_error hcause] at h
    cases h

/-- One item that ends the run: it is a fault itself, a fold fails, or it closes too much. -/
theorem read_error_cases {before : Text} {s : State} (hs : before.Unclosed (openings s.pending))
    {l : Lexeme} {halt : Halt} (h : s.read ⟨l, Text.byteLength before⟩ = .error halt) :
    (Item.mk l (Text.byteLength before)).token = .error halt.fault ∨ halt.fault.OfFold ∨
      l = .mark ')' ∧ before.Balanced ∧
        halt.fault = ⟨.unmatchedParen .closing, .single (Text.byteLength before)⟩ := by
  obtain htoken | ⟨among, hunwind⟩ | ⟨hclosing, ended, hend, hdrop⟩ := read_eq_error h
  · exact .inl htoken
  · exact .inr (.inl (ofFold_of_unwind_error hunwind))
  · rw [← openings_unwind hend] at hs
    obtain hnil | ⟨offset, below, hparen⟩ := endGroup_cases hend
    · rw [hnil] at hs
      rw [dropParen_eq_error hdrop]
      exact .inr (.inr ⟨hclosing, hs.balanced, rfl⟩)
    · obtain ⟨pending, bench⟩ := ended
      cases hparen
      cases hdrop

/-- Any number of items: what waits of the parentheses is what is unclosed in the text. -/
theorem readAll_unclosed (rest : Text) {before : Text} {s after : State}
    (hs : before.Unclosed (openings s.pending))
    (h : s.readAll (rest.itemsAt (Text.byteLength before)) = .ok after) :
    Text.Unclosed (before ++ rest) (openings after.pending) := by
  -- Spaces go to the text before as well, so the induction is on the text and not on its items.
  induction rest using Text.lexemeInduction generalizing before s with
  | nil =>
    rw [Text.itemsAt_nil] at h
    cases h
    rw [List.append_nil]
    exact hs
  | space t ih =>
    rw [Text.itemsAt_space] at h
    rw [List.append_cons]
    refine ih (hs.append Text.balanced_space) ?_
    rw [Text.byteLength_append]
    exact h
  | lexeme l t hitems hl ih =>
    rw [hitems, readAll_cons] at h
    obtain ⟨next, hread, hrest⟩ := bind_eq_ok.mp h
    rw [← List.append_assoc]
    refine ih (read_unclosed hs hl hread) ?_
    rw [Text.byteLength_append]
    exact hrest

/-- Any number of items of which one ends the run. -/
theorem readAll_error_cases (rest : Text) {before : Text} {s : State}
    (hs : before.Unclosed (openings s.pending)) {halt : Halt}
    (h : s.readAll (rest.itemsAt (Text.byteLength before)) = .error halt) :
    (∃ i ∈ rest.itemsAt (Text.byteLength before), i.token = .error halt.fault) ∨
      halt.fault.OfFold ∨
      ∃ front behind : Text, before ++ rest = front ++ ')' :: behind ∧ front.Balanced ∧
        halt.fault = ⟨.unmatchedParen .closing, .single (Text.byteLength front)⟩ := by
  induction rest using Text.lexemeInduction generalizing before s with
  | nil =>
    rw [Text.itemsAt_nil] at h
    cases h
  | space t ih =>
    have hlength : Text.byteLength (before ++ [' ']) = Text.byteLength before + 1 :=
      Text.byteLength_append before [' ']
    rw [Text.itemsAt_space, ← hlength] at h ⊢
    rw [List.append_cons before ' ' t]
    exact ih (hs.append Text.balanced_space) h
  | lexeme l t hitems hl ih =>
    rw [hitems, readAll_cons] at h
    rw [hitems]
    cases hread : s.read ⟨l, Text.byteLength before⟩ with
    | error first =>
      rw [hread] at h
      cases h
      obtain htoken | hfold | ⟨rfl, hbalanced, hfault⟩ := read_error_cases hs hread
      · exact .inl ⟨_, List.mem_cons_self, htoken⟩
      · exact .inr (.inl hfold)
      · exact .inr (.inr ⟨before, t, rfl, hbalanced, hfault⟩)
    | ok next =>
      rw [hread, ok_bind, ← Text.byteLength_append] at h
      obtain ⟨i, hi, htoken⟩ | hfold | hclosing := ih (read_unclosed hs hl hread) h
      · rw [Text.byteLength_append] at hi
        exact .inl ⟨i, List.mem_cons_of_mem _ hi, htoken⟩
      · exact .inr (.inl hfold)
      · rw [List.append_assoc] at hclosing
        exact .inr (.inr hclosing)

/-- Only tokens are read. -/
theorem token_of_read {s after : State} {i : Item} (h : s.read i = .ok after) :
    ∃ token, i.token = .ok token := by
  cases htoken : i.token with
  | ok token => exact ⟨token, rfl⟩
  | error fault =>
    rw [read_of_fault htoken] at h
    cases h

theorem token_of_readAll {items : List Item} {s after : State} (h : s.readAll items = .ok after) :
    ∀ i ∈ items, ∃ token, i.token = .ok token := by
  have hnone : ∀ i ∈ ([] : List Item), ∃ token, i.token = .ok token := by simp
  refine readAll_invariant (motive := fun items _ => ∀ i ∈ items, ∃ token, i.token = .ok token)
    ?_ hnone h
  intro items s i after hs hread
  rw [List.forall_mem_append, List.forall_mem_singleton]
  exact ⟨hs, token_of_read hread⟩

end State

/-- The number of operands left tells the result. -/
theorem Bench.result_cases (b : Bench) (length : Nat) :
    (b.operands.length = 0 ∧ b.result length = .error ⟨.emptyExpression, ⟨0, length⟩⟩) ∨
    (b.operands.length = 1 ∧ ∃ value, b.result length = .ok value) ∨
    (2 ≤ b.operands.length ∧ ∃ span, b.result length = .error ⟨.danglingOperand, span⟩) := by
  unfold result
  rw [← List.length_reverse]
  match b.operands.reverse with
  | [] => exact .inl ⟨rfl, rfl⟩
  | [x] => exact .inr (.inl ⟨rfl, _, rfl⟩)
  | _ :: extra :: below => exact .inr (.inr ⟨Nat.le_add_left 2 below.length, _, rfl⟩)

/-- What counting the operands left comes to: a value, or that there are none or too many. -/
def IsCount : Except Fault Decimal → Prop
  | .ok _ => True
  | .error f => f.kind = .emptyExpression ∨ f.kind = .danglingOperand

theorem Bench.isCount_result (b : Bench) (length : Nat) : IsCount (b.result length) := by
  obtain ⟨-, hresult⟩ | ⟨-, _, hresult⟩ | ⟨-, _, hresult⟩ := b.result_cases length
  · rw [hresult]
    exact .inl rfl
  · rw [hresult]
    trivial
  · rw [hresult]
    exact .inr rfl

namespace Text

inductive Ending (t : Text) : Except Fault Decimal → Prop
  | item {i : Item} {f : Fault} (hi : i ∈ t.items) (h : i.token = .error f) : Ending t (.error f)
  | fold {f : Fault} (h : f.OfFold) : Ending t (.error f)
  | closing {before behind : Text} (ht : t = before ++ ')' :: behind) (hbefore : before.Balanced) :
    Ending t (.error ⟨.unmatchedParen .closing, .single (byteLength before)⟩)
  | opening {before behind : Text} (ht : t = before ++ '(' :: behind) (hbefore : before.Closable)
    (hbehind : behind.Balanced) :
    Ending t (.error ⟨.unmatchedParen .opening, .single (byteLength before)⟩)
  | counted {bench : Bench} (hrun : t.state >>= State.finish = .ok bench) (hlexes : t.Lexes)
    (hbalanced : t.Balanced) : Ending t (bench.result (byteLength t))

/-- Every run ends in one of these ways. -/
theorem evaluate_ending (t : Text) : t.Ending (evaluate t) := by
  have hstart : Unclosed [] (openings State.start.pending) := .none (by decide)
  rw [evaluate_eq]
  cases hread : t.state with
  | error halt =>
    obtain ⟨i, hi, htoken⟩ | hfold | ⟨front, behind, ht, hfront, hfault⟩ :=
      State.readAll_error_cases t hstart hread
    · exact .item hi htoken
    · exact .fold hfold
    · change Ending t (.error halt.fault)
      rw [hfault]
      exact .closing ht hfront
  | ok s =>
    have hunclosed : t.Unclosed (openings s.pending) := State.readAll_unclosed t hstart hread
    rw [ok_bind, State.finish_eq]
    cases hend : s.endGroup with
    | error halt => exact .fold (State.ofFold_of_unwind_error hend)
    | ok ended =>
      obtain ⟨pending, bench⟩ := ended
      rw [← State.openings_unwind hend] at hunclosed
      obtain rfl | ⟨offset, below, rfl⟩ := State.endGroup_cases hend
      · refine .counted ?_ (State.token_of_readAll hread) hunclosed.balanced
        rw [hread, ok_bind, State.finish_eq, hend]
        rfl
      · obtain ⟨before, behind, ht, rfl, hbefore, hbehind⟩ := hunclosed.split
        exact .opening ht hbefore hbehind

/-- Operands are counted only when all items are read and all parentheses are paired. -/
theorem counted_of_isCount {t : Text} (h : IsCount (evaluate t)) :
    (∃ bench, t.state >>= State.finish = .ok bench ∧
      evaluate t = bench.result (byteLength t)) ∧ t.Lexes ∧ t.Balanced := by
  have hending := t.evaluate_ending
  generalize evaluate t = r at h hending
  cases hending with
  | item hi htoken =>
    obtain hkind | hkind := Item.kind_of_token_error htoken
    · simp [IsCount, hkind] at h
    · simp [IsCount, hkind] at h
  | fold hfold =>
    obtain hkind | hkind := hfold
    · simp [IsCount, hkind] at h
    · simp [IsCount, hkind] at h
  | closing => simp [IsCount, Fault.kind, Cause.kind] at h
  | opening => simp [IsCount, Fault.kind, Cause.kind] at h
  | counted hrun hlexes hbalanced => exact ⟨⟨_, hrun, rfl⟩, hlexes, hbalanced⟩

end Text
end ExactCalculator
