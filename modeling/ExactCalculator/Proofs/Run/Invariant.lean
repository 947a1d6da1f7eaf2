import ExactCalculator.Proofs.Run.Steps

/-!
What a run keeps true. A run does five things: it puts a number on the bench, opens a group, closes
one, lets an operator wait, and folds. A property of a state and of the items read up to it that
each of them keeps (`State.Invariant`) holds of a run that comes to its end, and of a run that halts
it holds at the halt, which is one of four (`State.Invariant.halts`).
-/
namespace ExactCalculator

namespace State

/-- A property of a state, given the items read up to it, that a run keeps. -/
structure Invariant (P : List Item → State → Prop) : Prop where
  start : P [] start
  number : ∀ {items : List Item} {s : State} {w : Text} {value : Decimal}, P items s →
    Decimal.ofLiteral w = .ok value → ∀ offset,
      P (items ++ [⟨.run w, offset⟩]) ⟨s.pending, s.bench.push ⟨value, .ofText offset w⟩⟩
  opening : ∀ {items : List Item} {s : State}, P items s → ∀ offset,
    P (items ++ [⟨.mark '(', offset⟩]) ⟨.paren offset :: s.pending, s.bench⟩
  closing : ∀ {items : List Item} {m : Nat} {s : State},
    P items ⟨.paren m :: s.pending, s.bench⟩ → ∀ offset, P (items ++ [⟨.mark ')', offset⟩]) s
  operator : ∀ {items : List Item} {s : State}, P items s → ∀ op offset,
    P (items ++ [⟨.mark op.symbol, offset⟩]) ⟨.operator op offset :: s.pending, s.bench⟩
  fold : ∀ {items : List Item} {op : Operator} {offset : Nat} {below : List Pending}
    {b after : Bench}, P items ⟨.operator op offset :: below, b⟩ →
      b.fold op offset = .ok after → P items ⟨below, after⟩

variable {P : List Item → State → Prop} {items : List Item} {s after : State}

theorem Invariant.unwind (hP : Invariant P) {among : Operator → Bool} (hs : P items s)
    (h : State.unwind among s.pending s.bench = .ok after) : P items after :=
  unwind_invariant (fun _ _ _ _ _ hs hfold => hP.fold hs hfold) hs h

/-- One item. -/
theorem Invariant.read (hP : Invariant P) {i : Item} (hs : P items s)
    (h : s.read i = .ok after) : P (items ++ [i]) after := by
  obtain ⟨l, offset⟩ := i
  obtain ⟨w, value, rfl, hvalue⟩ | rfl | rfl | ⟨op, rfl⟩ | ⟨cause, hcause⟩ := l.sorts
  · rw [read_run hvalue] at h
    cases h
    exact hP.number hs hvalue offset
  · rw [read_opening] at h
    cases h
    exact hP.opening hs offset
  · rw [read_closing] at h
    obtain ⟨ended, hend, hdrop⟩ := bind_eq_ok.mp h
    obtain ⟨m, rfl⟩ := dropParen_eq_ok hdrop
    exact hP.closing (hP.unwind hs hend) offset
  · rw [read_symbol] at h
    obtain ⟨given, hgive, hpush⟩ := bind_eq_ok.mp h
    cases hpush
    exact hP.operator (hP.unwind hs hgive) op offset
  · rw [read_of_error hcause] at h
    cases h

/-- Any number of items, from the start. -/
theorem Invariant.readAll (hP : Invariant P) (h : State.start.readAll items = .ok s) : P items s :=
  readAll_invariant (motive := P) (fun _ _ _ _ hs hread => hP.read hs hread) hP.start h

/-- A whole text. -/
theorem Invariant.state (hP : Invariant P) {t : Text} (h : t.state = .ok s) : P t.items s :=
  hP.readAll h

theorem Invariant.finish (hP : Invariant P) {t : Text} {bench : Bench}
    (h : t.state >>= State.finish = .ok bench) : P t.items ⟨[], bench⟩ := by
  obtain ⟨s, hread, hfinish⟩ := bind_eq_ok.mp h
  rw [finish_eq] at hfinish
  obtain ⟨ended, hend, hclosed⟩ := bind_eq_ok.mp hfinish
  cases allClosed_eq_ok hclosed
  exact hP.unwind (hP.state hread) hend

/-- Two properties at once. -/
theorem Invariant.and {Q : List Item → State → Prop} (hP : Invariant P) (hQ : Invariant Q) :
    Invariant fun items s => P items s ∧ Q items s where
  start := ⟨hP.start, hQ.start⟩
  number hs hvalue offset := ⟨hP.number hs.1 hvalue offset, hQ.number hs.2 hvalue offset⟩
  opening hs offset := ⟨hP.opening hs.1 offset, hQ.opening hs.2 offset⟩
  closing hs offset := ⟨hP.closing hs.1 offset, hQ.closing hs.2 offset⟩
  operator hs op offset := ⟨hP.operator hs.1 op offset, hQ.operator hs.2 op offset⟩
  fold hs h := ⟨hP.fold hs.1 h, hQ.fold hs.2 h⟩

/-- The states that a run over a text passes through: those after an item, and those after each fold
of an operator that waits on top. -/
inductive Visited (t : Text) : List Item → State → Prop
  | read {items : List Item} {s : State} (hitems : items <+: t.items)
    (h : start.readAll items = .ok s) : Visited t items s
  | fold {items : List Item} {op : Operator} {offset : Nat} {below : List Pending}
    {b after : Bench} (h : Visited t items ⟨.operator op offset :: below, b⟩)
    (hfold : b.fold op offset = .ok after) : Visited t items ⟨below, after⟩

theorem Visited.read_of_text {t : Text} (h : Visited t items s) : items <+: t.items := by
  induction h with
  | read hitems h => exact hitems
  | fold h hfold ih => exact ih

theorem Invariant.visited (hP : Invariant P) {t : Text} (h : Visited t items s) : P items s := by
  induction h with
  | read hitems h => exact hP.readAll h
  | fold h hfold ih => exact hP.fold ih hfold

/-- The ways in which a run over a text can halt, and the state in which it does. -/
inductive Halts (P : List Item → State → Prop) (t : Text) : Halt → Prop
  | item {front behind : List Item} {i : Item} {s : State} {f : Fault}
    (hitems : t.items = front ++ i :: behind) (hs : P front s) (h : i.token = .error f) :
    Halts P t (s.bench.halt f)
  | fold {items : List Item} {op : Operator} {offset : Nat} {below : List Pending} {b : Bench}
    {halt : Halt} (hitems : items <+: t.items) (hs : P items ⟨.operator op offset :: below, b⟩)
    (h : b.fold op offset = .error halt) : Halts P t halt
  | closing {front behind : List Item} {offset : Nat} {s : State}
    (hitems : t.items = front ++ ⟨.mark ')', offset⟩ :: behind) (hs : P front s) :
    Halts P t (s.bench.halt ⟨.unmatchedParen .closing, .single offset⟩)
  | opening {offset : Nat} {below : List Pending} {b : Bench}
    (hs : P t.items ⟨.paren offset :: below, b⟩) :
    Halts P t (b.halt ⟨.unmatchedParen .opening, .single offset⟩)

variable {t : Text} {halt : Halt}

theorem Invariant.halts_of_unwind (hP : Invariant P) {among : Operator → Bool}
    (hitems : items <+: t.items) (hs : P items s)
    (h : State.unwind among s.pending s.bench = .error halt) : Halts P t halt := by
  obtain ⟨op, offset, below, b, hb, hfold⟩ :=
    unwind_eq_error (motive := P items) (fun _ _ _ _ _ hs hfold => hP.fold hs hfold) hs h
  exact .fold hitems hb hfold

theorem Invariant.halts_of_read (hP : Invariant P) {i : Item} {behind : List Item}
    (hitems : t.items = items ++ i :: behind) (hs : P items s) (h : s.read i = .error halt) :
    Halts P t halt := by
  obtain htoken | ⟨among, hunwind⟩ | ⟨hclosing, ended, hend, hdrop⟩ := read_eq_error h
  · have hhalts := Halts.item hitems hs htoken
    rw [read_of_fault htoken] at h
    rwa [Except.error.inj h] at hhalts
  · exact hP.halts_of_unwind ⟨i :: behind, hitems.symm⟩ hs hunwind
  · obtain ⟨l, offset⟩ := i
    cases hclosing
    rw [dropParen_eq_error hdrop]
    exact .closing hitems (hP.unwind hs hend)

/-- A run that does not come to its end halts in one of these ways. -/
theorem Invariant.halts (hP : Invariant P) (h : t.state >>= State.finish = .error halt) :
    Halts P t halt := by
  obtain hread | ⟨s, hread, hfinish⟩ := bind_eq_error.mp h
  · obtain ⟨front, i, behind, s, hitems, hs, hi⟩ :=
      readAll_eq_error (motive := P) (fun _ _ _ _ hs hread => hP.read hs hread) hP.start hread
    exact hP.halts_of_read hitems hs hi
  · have hs := hP.state hread
    rw [finish_eq] at hfinish
    obtain hend | ⟨ended, hend, hclosed⟩ := bind_eq_error.mp hfinish
    · exact hP.halts_of_unwind List.prefix_rfl hs hend
    · have hs := hP.unwind hs hend
      obtain ⟨pending, bench⟩ := ended
      obtain rfl | ⟨offset, below, rfl⟩ := endGroup_cases hend
      · cases hclosed
      · cases hclosed
        exact .opening hs

end State
end ExactCalculator
