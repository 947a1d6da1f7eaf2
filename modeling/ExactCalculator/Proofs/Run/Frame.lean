import ExactCalculator.Proofs.Run.Likeness

/-!
A run on top of another. What lies below a run that succeeds is not touched, as long as nothing of
it can be folded (`readAll_above`). So a text with a value, put in parentheses anywhere, is read as
one operand of that value, whatever waits and lies on the bench there (`State.readAll_itemsAt_group`).
-/
namespace ExactCalculator

/-- A bench on top of another. -/
def Bench.above (b below : Bench) : Bench :=
  ⟨b.operands ++ below.operands, b.folds ++ below.folds⟩

def State.above (s below : State) : State := ⟨s.pending ++ below.pending, s.bench.above below.bench⟩

theorem Bench.fold_above {b after : Bench} {op : Operator} {offset : Nat}
    (h : b.fold op offset = .ok after) (below : Bench) :
    (b.above below).fold op offset = .ok (after.above below) := by
  obtain ⟨operands, folds⟩ := b
  obtain ⟨right, left, rest, value, hoperands, happly, rfl⟩ := fold_eq_ok h
  cases hoperands
  exact fold_of_apply_ok happly ..

namespace State

variable (below : State)

/-- Unwinding stops above what lies below, if not before. -/
theorem unwind_above {among : Operator → Bool} (hbelow : Blocks among below.pending)
    {pending : List Pending} {bench : Bench} {s : State} (h : unwind among pending bench = .ok s) :
    unwind among (pending ++ below.pending) (bench.above below.bench) = .ok (s.above below) := by
  induction pending generalizing bench with
  | nil =>
    cases h
    exact unwind_of_blocks hbelow _
  | cons p rest ih =>
    cases p with
    | paren offset =>
      cases h
      rfl
    | operator op offset =>
      rw [List.cons_append]
      by_cases hop : among op = true
      · rw [unwind_operator hop] at h ⊢
        obtain ⟨after, hfold, hrest⟩ := bind_eq_ok.mp h
        rw [Bench.fold_above hfold, ok_bind]
        exact ih hrest
      · rw [unwind_operator_of_not_among (by simpa using hop)] at h ⊢
        cases h
        rfl

theorem dropParen_above {s after : State} {offset : Nat} (h : s.dropParen offset = .ok after) :
    (s.above below).dropParen offset = .ok (after.above below) := by
  obtain ⟨m, rfl⟩ := dropParen_eq_ok h
  rfl

variable (hbelow : ∀ among, Blocks among below.pending)
include hbelow

theorem read_above {s after : State} {i : Item} (h : s.read i = .ok after) :
    (s.above below).read i = .ok (after.above below) := by
  obtain ⟨l, offset⟩ := i
  obtain ⟨w, value, rfl, hvalue⟩ | rfl | rfl | ⟨op, rfl⟩ | ⟨cause, hcause⟩ := l.sorts
  · rw [read_run hvalue] at h ⊢
    cases h
    rfl
  · rw [read_opening] at h ⊢
    cases h
    rfl
  · rw [read_closing] at h ⊢
    obtain ⟨ended, hend, hdrop⟩ := bind_eq_ok.mp h
    rw [endGroup, above, unwind_above below (hbelow _) hend]
    exact dropParen_above below hdrop
  · rw [read_symbol] at h ⊢
    obtain ⟨given, hgive, hpush⟩ := bind_eq_ok.mp h
    cases hpush
    rw [giveWay, above, unwind_above below (hbelow _) hgive]
    rfl
  · rw [read_of_error hcause] at h
    cases h

/-- A run that succeeds does the same on top of anything that blocks folding. -/
theorem readAll_above {items : List Item} {s after : State} (h : s.readAll items = .ok after) :
    (s.above below).readAll items = .ok (after.above below) := by
  induction items generalizing s with
  | nil =>
    cases h
    rfl
  | cons i items ih =>
    rw [readAll_cons] at h ⊢
    obtain ⟨next, hread, hrest⟩ := bind_eq_ok.mp h
    rw [read_above below hbelow hread]
    exact ih hrest

omit hbelow

/-- Items that come to one operand do so in parentheses on top of any state. -/
theorem readAll_group_of_endGroup {items : List Item} {bench : Bench}
    (h : start.readAll items >>= endGroup = .ok ⟨[], bench⟩) (s : State) (offset close : Nat) :
    s.readAll (⟨.mark '(', offset⟩ :: (items ++ [⟨.mark ')', close⟩])) =
      .ok ⟨s.pending, bench.above s.bench⟩ := by
  obtain ⟨last, hread, hend⟩ := bind_eq_ok.mp h
  have hblocks : ∀ among, Blocks among (Pending.paren offset :: s.pending) :=
    fun among => blocks_paren among offset s.pending
  let below : State := ⟨.paren offset :: s.pending, s.bench⟩
  have hover := readAll_above below hblocks hread
  have hfolded := unwind_above below (hblocks _) hend
  rw [readAll_group]
  change (readAll (start.above below) items >>= endGroup) >>= _ = _
  rw [hover, ok_bind]
  change (unwind _ (last.pending ++ _) (last.bench.above _)) >>= _ = _
  rw [hfolded]
  rfl

end State

/-- A text has a value when its items come to one operand. -/
theorem evaluate_eq_ok {t : Text} {value : Decimal} (h : evaluate t = .ok value) :
    ∃ x folds, State.start.readAll t.items >>= State.endGroup = .ok ⟨[], ⟨[x], folds⟩⟩ ∧
      value = x.value.normalized := by
  rw [evaluate_eq] at h
  cases hrun : t.state >>= State.finish with
  | error halt =>
    rw [hrun] at h
    cases h
  | ok bench =>
    rw [hrun] at h
    obtain ⟨s, hread, hfinish⟩ := bind_eq_ok.mp hrun
    rw [State.finish_eq] at hfinish
    obtain ⟨ended, hend, hclosed⟩ := bind_eq_ok.mp hfinish
    cases State.allClosed_eq_ok hclosed
    obtain ⟨operands, folds⟩ := bench
    obtain ⟨x, hx, hvalue⟩ := (Bench.result_eq_ok_iff _ _ _).mp h
    cases hx
    exact ⟨x, folds, bind_eq_ok.mpr ⟨s, hread, hend⟩, hvalue⟩

/-- Items further on come to the same operand there. -/
theorem State.endGroup_shift {items : List Item} {x : Operand} {folds : List Fold}
    (h : start.readAll items >>= endGroup = .ok ⟨[], ⟨[x], folds⟩⟩) (bytes : Nat) :
    ∃ folds, start.readAll (items.map (Item.shift · bytes)) >>= endGroup =
      .ok ⟨[], ⟨[x.shift bytes], folds⟩⟩ := by
  have halike := (Likeness.readAll_alike (Likeness.items_shifted bytes items)
    (s := start) (t := start) ⟨.nil, .nil, .nil⟩).bind
    fun s t h => Likeness.unwind_alike (fun _ => true) h.pending h.bench
  change ExceptRelated _ _ (start.readAll items >>= endGroup)
    (start.readAll (items.map (Item.shift · bytes)) >>= endGroup) at halike
  rw [h] at halike
  generalize start.readAll (items.map (Item.shift · bytes)) >>= endGroup = r at halike
  cases halike with
  | @ok _ s hstates =>
    obtain ⟨pending, operands, folds⟩ := s
    obtain ⟨hpending, hoperands, -⟩ := hstates
    cases hpending
    cases hoperands with
    | @cons _ y _ _ hy hrest =>
      cases hrest
      rw [Likeness.operands_shifted_iff.mp hy]
      exact ⟨folds, rfl⟩

/-- A text with a value, put in parentheses, is read as one operand of that value on top of any
state. -/
theorem State.readAll_itemsAt_group {e : Text} {x : Operand} {folds : List Fold}
    (h : start.readAll e.items >>= endGroup = .ok ⟨[], ⟨[x], folds⟩⟩) (s : State) (offset : Nat) :
    ∃ folds, s.readAll (Text.itemsAt offset e.group) =
      .ok ⟨s.pending, x.shift (offset + 1) :: s.bench.operands, folds⟩ := by
  obtain ⟨folds, hshift⟩ := endGroup_shift h (offset + 1)
  rw [Text.itemsAt_group, Text.itemsAt_eq_map]
  exact ⟨_, readAll_group_of_endGroup hshift s offset _⟩

end ExactCalculator
