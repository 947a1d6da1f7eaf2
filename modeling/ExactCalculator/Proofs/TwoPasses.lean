import ExactCalculator.Proofs.Run.Steps
import ExactCalculator.Proofs.Waiting

/-!
Evaluation in two passes. The first pass lays out what happens to the values, the second plays it.
Both agree with reading item by item: the pending entries are at every point those that wait by the
schedule, and unwinding carries out the folds that the schedule has there (`unwind_eq_carryOut`). So
a run is nothing but its schedule, carried out on a bench (`carryOut_layout`), and the main theorem
(`evaluate_eq_play`) holds of every text, whether it is an expression or not.
-/
namespace ExactCalculator

namespace Bench

/-- Carries the events out one after the other; the first failure ends it. -/
def carryOut : Bench → List Event → Except Halt Bench
  | b, [] => .ok b
  | b, .push x :: events => (b.push x).carryOut events
  | b, .fold op offset :: events =>
    match b.fold op offset with
    | .ok after => after.carryOut events
    | .error halt => .error halt
  | b, .fail fault :: _ => .error (b.halt fault)

@[simp] theorem carryOut_nil (b : Bench) : b.carryOut [] = .ok b := rfl
@[simp] theorem carryOut_push (b : Bench) (x : Operand) (events : List Event) :
    b.carryOut (.push x :: events) = (b.push x).carryOut events := rfl
@[simp] theorem carryOut_fail (b : Bench) (fault : Fault) (events : List Event) :
    b.carryOut (.fail fault :: events) = .error (b.halt fault) := rfl

theorem carryOut_fold (b : Bench) (op : Operator) (offset : Nat) (events : List Event) :
    b.carryOut (.fold op offset :: events) =
      b.fold op offset >>= fun after => after.carryOut events := by
  rw [carryOut]
  cases b.fold op offset <;> rfl

theorem carryOut_append (b : Bench) (events more : List Event) :
    b.carryOut (events ++ more) = b.carryOut events >>= fun after => after.carryOut more := by
  induction events generalizing b with
  | nil => rfl
  | cons event events ih =>
    cases event with
    | push x => exact ih (b.push x)
    | fail fault => rfl
    | fold op offset =>
      rw [List.cons_append, carryOut_fold, carryOut_fold]
      cases b.fold op offset with
      | ok after => exact ih after
      | error halt => rfl

end Bench

/-- To play a fold is to fold on the bench. -/
theorem play_fold (length : Nat) (b : Bench) (op : Operator) (offset : Nat) (events : List Event) :
    play length b.operands (.fold op offset :: events) =
      match b.fold op offset with
      | .error halt => .error halt.fault
      | .ok after => play length after.operands events := by
  obtain ⟨right, left, below, value, hb, happly, hfold⟩ |
    ⟨right, left, below, hb, happly, hfold⟩ | ⟨hlength, hfold⟩ := b.fold_cases op offset
  · rw [hb, hfold]
    simp only [play, happly]
  · rw [hb, hfold]
    simp only [play, happly]
  · rw [hfold]
    match hb : b.operands with
    | [] => rfl
    | [x] => rfl
    | right :: left :: below =>
      rw [hb, List.length_cons, List.length_cons] at hlength
      omega

/-- Playing events is carrying them out and looking at the operands only. -/
theorem play_eq (length : Nat) (b : Bench) (events : List Event) :
    play length b.operands events = resultOf length (b.carryOut events) := by
  induction events generalizing b with
  | nil => rfl
  | cons event events ih =>
    cases event with
    | push x => exact ih (b.push x)
    | fail fault => rfl
    | fold op offset =>
      rw [play_fold, Bench.carryOut_fold]
      cases b.fold op offset with
      | ok after => exact ih after
      | error halt => rfl

namespace State

/-- To unwind some entries is to carry out their folds; the entries from the first other one on
stay. -/
theorem unwind_eq_carryOut (among : Operator → Bool) (folded : Pending → Bool)
    (hop : ∀ op offset, folded (.operator op offset) = among op)
    (hparen : ∀ offset, folded (.paren offset) = false) (pending : List Pending) (b : Bench) :
    unwind among pending b =
      b.carryOut ((pending.takeWhile folded).filterMap Pending.fold?) >>= fun after =>
        .ok ⟨pending.dropWhile folded, after⟩ := by
  induction pending generalizing b with
  | nil => rfl
  | cons p below ih =>
    cases p with
    | paren offset =>
      have hneg : ¬ folded (.paren offset) = true := by simp [hparen]
      rw [List.takeWhile_cons_of_neg hneg, List.dropWhile_cons_of_neg hneg]
      rfl
    | operator op offset =>
      by_cases hamong : among op = true
      · have hpos : folded (.operator op offset) = true := (hop op offset).trans hamong
        rw [List.takeWhile_cons_of_pos hpos, List.dropWhile_cons_of_pos hpos,
          unwind_operator hamong]
        change _ = b.carryOut (.fold op offset :: _) >>= _
        rw [Bench.carryOut_fold]
        cases b.fold op offset with
        | ok after => exact ih after
        | error halt => rfl
      · have hneg : ¬ folded (.operator op offset) = true := by rwa [hop]
        rw [List.takeWhile_cons_of_neg hneg, List.dropWhile_cons_of_neg hneg,
          unwind_operator_of_not_among (by simpa using hamong)]
        rfl

/-- At the end of the tokens, of all that waits, only what lies above the last open parenthesis is
folded. -/
theorem carryOut_layout_nil {before : List Token} {s : State} (hs : s.pending = waiting before) :
    s.bench.carryOut (layout before []) = s.finish := by
  rw [finish_eq, endGroup, hs, layout, unwind_eq_carryOut (fun _ => true) (fun p => !p.isParen)
    (fun _ _ => rfl) (fun _ => rfl)]
  obtain ⟨hnone, htake, hdrop⟩ | ⟨paren, behind, below, hsome, htake, hdrop⟩ :=
    lastOpen?_split (fun p => !p.isParen) (fun _ _ => rfl) (fun _ => rfl) before
  · rw [htake, hdrop, hnone]
    dsimp only
    rw [foldsAtEnd_eq]
    cases s.bench.carryOut ((waiting before).filterMap Pending.fold?) <;> rfl
  · rw [htake, hdrop, hsome]
    dsimp only
    rw [foldsAtEnd_eq, Bench.carryOut_append]
    cases s.bench.carryOut ((waiting behind).filterMap Pending.fold?) <;> rfl

/-- One token: what the schedule has at it is what reading it does, and the right entries wait
afterwards. -/
theorem feed_eq_carryOut {i : Item} {t : Token} (hi : i.token = .ok t) {before : List Token}
    {s : State} (hs : s.pending = waiting before) (items : List Item) :
    ∃ r : Except Halt Bench,
      s.feed t = (r >>= fun after => .ok ⟨waiting (before ++ [t]), after⟩) ∧
      s.bench.carryOut (layout before (i :: items)) =
        r >>= fun after => after.carryOut (layout (before ++ [t]) items) := by
  simp only [layout, hi]
  rw [waiting_concat, remaining, ← hs]
  cases hm : t.meaning with
  | number value =>
    refine ⟨.ok (s.bench.push ⟨value, t.span⟩), feed_number hm s, ?_⟩
    rw [foldsAt_eq_nil fun op => by simp only [Operator.dueAt, hm]]
    rfl
  | opening =>
    refine ⟨.ok s.bench, feed_opening hm s, ?_⟩
    rw [foldsAt_eq_nil fun op => by simp only [Operator.dueAt, hm]]
    rfl
  | operator op =>
    have hop : ∀ waits offset, Pending.foldedAt t (.operator waits offset) =
        decide (op.precedence ≤ waits.precedence) := by
      intro waits offset
      simp only [Pending.foldedAt, Operator.dueAt, hm]
    refine ⟨s.bench.carryOut (foldsAt before t), ?_, Bench.carryOut_append ..⟩
    rw [feed_operator hm, giveWay, foldsAt_eq, ← hs,
      unwind_eq_carryOut _ _ hop (fun _ => rfl) s.pending s.bench]
    cases s.bench.carryOut ((s.pending.takeWhile (Pending.foldedAt t)).filterMap Pending.fold?) <;>
      rfl
  | closing =>
    have hop : ∀ waits offset, Pending.foldedAt t (.operator waits offset) = true := by
      intro waits offset
      simp only [Pending.foldedAt, Operator.dueAt, hm]
    rw [feed_closing hm, endGroup, foldsAt_eq, ← hs,
      unwind_eq_carryOut _ _ hop (fun _ => rfl) s.pending s.bench, Bench.carryOut_append]
    generalize s.bench.carryOut
      ((s.pending.takeWhile (Pending.foldedAt t)).filterMap Pending.fold?) = r
    obtain ⟨hnone, -, hdrop⟩ | ⟨paren, behind, below, hsome, -, hdrop⟩ :=
      lastOpen?_split _ hop (fun _ => rfl) before
    · -- No parenthesis is open, so the last unwinding left nothing.
      rw [hs, hdrop, if_pos hnone]
      refine ⟨r >>= fun after => .error (after.halt ⟨.unmatchedParen .closing, .single t.offset⟩),
        ?_, ?_⟩
      · cases r <;> rfl
      · cases r <;> rfl
    · rw [hs, hdrop, if_neg (by simp [hsome])]
      refine ⟨r, ?_, rfl⟩
      cases r <;> rfl

/-- Reading from a state in which the right entries wait carries out what is laid out. -/
theorem carryOut_layout (items : List Item) {before : List Token} {s : State}
    (hs : s.pending = waiting before) :
    s.bench.carryOut (layout before items) = s.readAll items >>= finish := by
  induction items generalizing before s with
  | nil => exact carryOut_layout_nil hs
  | cons i items ih =>
    rw [readAll_cons]
    cases hi : i.token with
    | error fault =>
      rw [layout, hi, read_of_fault hi]
      rfl
    | ok t =>
      obtain ⟨r, hfeed, hcarried⟩ := feed_eq_carryOut hi hs items
      rw [read_of_token hi, hfeed, hcarried]
      cases r with
      | error halt => rfl
      | ok after => exact ih (s := ⟨waiting (before ++ [t]), after⟩) rfl

/-- The first pass lays out what reading does from a state in which the right entries wait. -/
theorem play_layout (length : Nat) (items : List Item) {before : List Token} {s : State}
    (hs : s.pending = waiting before) :
    play length s.bench.operands (layout before items) =
      resultOf length (s.readAll items >>= finish) := by
  rw [play_eq, carryOut_layout items hs]

end State

/-- Every text evaluates to what its schedule comes to when it is played on an empty stack. -/
theorem evaluate_eq_play (t : Text) :
    evaluate t = play (Text.byteLength t) [] (layout [] t.items) := by
  rw [evaluate_eq]
  exact (State.play_layout (Text.byteLength t) t.items (s := .start) rfl).symm

/-- In `2()+3` the group has nothing to fold, and the sum is folded at the end. -/
example : layout [] (Text.items ['2', '(', ')', '+', '3']) =
    [.push ⟨⟨2, 0⟩, ⟨0, 1⟩⟩, .push ⟨⟨3, 0⟩, ⟨4, 5⟩⟩, .fold .plus 3] := by
  decide +kernel

end ExactCalculator
