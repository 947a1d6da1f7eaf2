import ExactCalculator.Proofs.Run.Forest

/-!
What the faults of a run are about. Everything that waits was an item that was read, and every
operand comes from a block of the numbers that were read (`State.DrawnFrom`). So a fault is that of
an item itself, or it blames a parenthesis or an operator that was read, or a block of numbers
(`evaluate_blames`); nothing else fails but the empty expression.
-/
namespace ExactCalculator

def Pending.item : Pending → Item
  | .paren offset => ⟨.mark '(', offset⟩
  | .operator op offset => ⟨.mark op.symbol, offset⟩

def Side.symbol : Side → Char
  | .opening => '('
  | .closing => ')'

/-- From the beginning of a number to the end of the same or a later one, with these in front. -/
def Bridges (front numbers : List Item) (s : Span) : Prop :=
  ∃ block behind, numbers = front ++ (block ++ behind) ∧
    ∃ first ∈ block.head?, ∃ last ∈ block.getLast?, s = first.span.join last.span

/-- A fault that is about some of the items. -/
inductive Fault.Blames (items : List Item) : Fault → Prop
  | item {i : Item} {f : Fault} (hi : i ∈ items) (h : i.token = .error f) : Blames items f
  | paren (side : Side) {offset : Nat} (h : ⟨.mark side.symbol, offset⟩ ∈ items) :
    Blames items ⟨.unmatchedParen side, .single offset⟩
  | operator {op : Operator} {offset : Nat} (h : ⟨.mark op.symbol, offset⟩ ∈ items) :
    Blames items ⟨.missingOperand op, .single offset⟩
  | divisor {front : List Item} {s : Span} (h : Bridges front (items.filter Item.isNumber) s) :
    Blames items ⟨.divisionByZero, s⟩
  | dangling {front : List Item} {s : Span} (hfront : front ≠ [])
    (h : Bridges front (items.filter Item.isNumber) s) : Blames items ⟨.danglingOperand, s⟩

/-- Reading on takes no blame away. -/
theorem Fault.Blames.append {items : List Item} {f : Fault} (h : f.Blames items)
    (more : List Item) : f.Blames (items ++ more) := by
  have hbridges : ∀ {front s}, Bridges front (items.filter Item.isNumber) s →
      Bridges front ((items ++ more).filter Item.isNumber) s := by
    rintro front s ⟨block, behind, hnumbers, hspan⟩
    refine ⟨block, behind ++ more.filter Item.isNumber, ?_, hspan⟩
    rw [List.filter_append, hnumbers, List.append_assoc, List.append_assoc]
  cases h with
  | item hi h => exact .item (List.mem_append_left _ hi) h
  | paren side h => exact .paren side (List.mem_append_left _ h)
  | operator h => exact .operator (List.mem_append_left _ h)
  | divisor h => exact .divisor (hbridges h)
  | dangling hfront h => exact .dangling hfront (hbridges h)

/-- An operand bridges a block of the numbers, and any older operand has numbers in front of it. -/
theorem Bench.Grown.bridges {b : Bench} {forest : List Expression} {numbers : List Item}
    (hb : b.Grown forest numbers) (newer : List Operand) {x : Operand} {older : List Operand}
    (h : b.operands = newer ++ x :: older) :
    ∃ front, Bridges front numbers x.span ∧ (older ≠ [] → front ≠ []) := by
  obtain ⟨hforest, rfl, -⟩ := hb
  rw [h] at hforest
  have hsplit := (List.take_append_drop newer.length forest).symm
  have hdrop := List.forall₂_drop_append _ _ _ hforest
  generalize forest.take newer.length = upper at hsplit
  generalize forest.drop newer.length = rest at hsplit hdrop
  cases hdrop with
  | @cons e _ lower _ he hlower =>
    refine ⟨lower.reverse.flatMap Expression.leaves,
      ⟨e.leaves, upper.reverse.flatMap Expression.leaves, ?_, ?_⟩, ?_⟩
    · rw [hsplit, List.reverse_append, List.reverse_cons, List.flatMap_append,
        List.flatMap_append, List.flatMap_singleton, List.append_assoc]
    · rw [he.span]
      exact e.span_eq_of_leaves
    · intro hne hnil
      cases hlower with
      | nil => exact hne rfl
      | @cons first _ _ _ _ _ =>
        rw [List.flatMap_eq_nil_iff] at hnil
        exact first.leaves_ne_nil (hnil first (by simp))

/-- A fold fails for want of an operand, or because of the numbers of its divisor. -/
theorem Bench.blames_of_fold {b : Bench} {items : List Item} {op : Operator} {offset : Nat}
    {halt : Halt} {forest : List Expression} (hop : ⟨.mark op.symbol, offset⟩ ∈ items)
    (hb : b.Grown forest (items.filter Item.isNumber)) (h : b.fold op offset = .error halt) :
    halt.fault.Blames items := by
  obtain ⟨right, left, below, hoperands, -, rfl⟩ | rfl := fold_eq_error h
  · obtain ⟨front, hbridges, -⟩ := hb.bridges [] hoperands
    exact .divisor hbridges
  · exact .operator hop

namespace State

structure DrawnFrom (items : List Item) (s : State) : Prop where
  pending : ∀ p ∈ s.pending, p.item ∈ items
  bench : ∃ forest, s.bench.Grown forest (items.filter Item.isNumber)

theorem drawnFrom_invariant : Invariant fun items s => s.DrawnFrom items where
  start := ⟨by simp [start], grown_invariant.start⟩
  number hs hvalue offset :=
    ⟨fun p hp => List.mem_append_left _ (hs.pending p hp),
      grown_invariant.number hs.bench hvalue offset⟩
  opening hs offset := by
    refine ⟨fun p hp => ?_, grown_invariant.opening hs.bench offset⟩
    obtain rfl | hp := List.mem_cons.mp hp
    · exact List.mem_append_right _ List.mem_cons_self
    · exact List.mem_append_left _ (hs.pending p hp)
  closing hs offset :=
    ⟨fun p hp => List.mem_append_left _ (hs.pending p (List.mem_cons_of_mem _ hp)),
      grown_invariant.closing hs.bench offset⟩
  operator hs op offset := by
    refine ⟨fun p hp => ?_, grown_invariant.operator hs.bench op offset⟩
    obtain rfl | hp := List.mem_cons.mp hp
    · exact List.mem_append_right _ List.mem_cons_self
    · exact List.mem_append_left _ (hs.pending p hp)
  fold hs h :=
    ⟨fun p hp => hs.pending p (List.mem_cons_of_mem _ hp), grown_invariant.fold hs.bench h⟩

/-- Wherever a run halts, what it read is to blame. -/
theorem Halts.blames {t : Text} {halt : Halt}
    (h : Halts (fun items s => s.DrawnFrom items) t halt) : halt.fault.Blames t.items := by
  cases h with
  | item hitems hs htoken =>
    refine .item ?_ htoken
    rw [hitems]
    exact List.mem_append_right _ List.mem_cons_self
  | fold hitems hs hfold =>
    obtain ⟨more, hmore⟩ := hitems
    obtain ⟨forest, hb⟩ := hs.bench
    rw [← hmore]
    exact (Bench.blames_of_fold (hs.pending _ List.mem_cons_self) hb hfold).append more
  | closing hitems hs =>
    refine .paren .closing ?_
    rw [hitems]
    exact List.mem_append_right _ List.mem_cons_self
  | opening hs => exact .paren .opening (hs.pending _ List.mem_cons_self)

end State

/-- Of several operands left the second oldest is to blame. -/
theorem Bench.blames_of_result {b : Bench} {items : List Item} {forest : List Expression}
    (hb : b.Grown forest (items.filter Item.isNumber)) {length : Nat} {f : Fault}
    (h : b.result length = .error f) :
    f.Blames items ∨ f = ⟨.emptyExpression, ⟨0, length⟩⟩ := by
  have hreverse := b.operands.reverse_reverse
  unfold result at h
  split at h
  next =>
    cases h
    exact .inr rfl
  next => cases h
  next bottom extra newer hoperands =>
    cases h
    rw [hoperands, List.reverse_cons, List.reverse_cons, List.append_assoc] at hreverse
    obtain ⟨front, hbridges, hfront⟩ := hb.bridges newer.reverse hreverse.symm
    exact .inl (.dangling (hfront (List.cons_ne_nil _ _)) hbridges)

/-- Every fault of a text blames some of its items, or the text is empty of numbers. -/
theorem evaluate_blames {t : Text} {f : Fault} (h : evaluate t = .error f) :
    f.Blames t.items ∨ f = ⟨.emptyExpression, ⟨0, Text.byteLength t⟩⟩ := by
  rw [evaluate_eq] at h
  cases hrun : t.state >>= State.finish with
  | error halt =>
    rw [hrun] at h
    cases h
    exact .inl (State.drawnFrom_invariant.halts hrun).blames
  | ok bench =>
    rw [hrun] at h
    obtain ⟨forest, hb⟩ := State.grown_invariant.finish hrun
    exact Bench.blames_of_result hb h

/-- To blame an item is never to find nothing. -/
theorem Fault.Blames.kind_ne_emptyExpression {items : List Item} {f : Fault}
    (h : f.Blames items) : f.kind ≠ .emptyExpression := by
  cases h with
  | item hi h =>
    obtain ⟨cause, hcause, rfl⟩ := Item.token_eq_error h
    obtain ⟨c, -, -, rfl⟩ | ⟨w, reason, -, -, rfl⟩ := Lexeme.meaning_eq_error hcause
    · exact FaultKind.noConfusion
    · exact FaultKind.noConfusion
  | paren side h => exact FaultKind.noConfusion
  | operator h => exact FaultKind.noConfusion
  | divisor h => exact FaultKind.noConfusion
  | dangling hfront h => exact FaultKind.noConfusion

/-- Where nothing is found, the whole text is blamed. -/
theorem eq_of_kind_eq_emptyExpression {t : Text} {f : Fault} (h : evaluate t = .error f)
    (hkind : f.kind = .emptyExpression) : f = ⟨.emptyExpression, ⟨0, Text.byteLength t⟩⟩ := by
  obtain hblames | hempty := evaluate_blames h
  · exact absurd hkind hblames.kind_ne_emptyExpression
  · exact hempty

end ExactCalculator
