import ExactCalculator.Proofs.Alphabet
import ExactCalculator.Proofs.Evaluation
import ExactCalculator.Proofs.Run.Tally
import ExactCalculator.Proofs.TwoPasses
import ExactCalculator.Run.Record

/-!
The log of a run tells what the run did. Its lines are the applications that the schedule comes to
(`Text.folds_run`), one for each operator that finds two operands, and after a value one line more,
which quotes the text as it is. The main theorem (`log_of_run`) says this of every text, and which
operators are applied in a run that fails, and of the texts that spell a tree that the operators are
applied in post-order.
-/
namespace ExactCalculator

/-- The operators that find two operands when events are carried out on a stack, the newest operand
first, as far as to the first division by zero. -/
def applied : List Operand → List Event → List Fold
  | _, [] => []
  | stack, .push x :: events => applied (x :: stack) events
  | right :: left :: below, .fold op offset :: events =>
    ⟨op, offset, left, right⟩ ::
      match op.apply left.value right.value with
      | .ok value => applied (⟨value, left.span.join right.span⟩ :: below) events
      | .error .divisionByZero => []
  | _, .fold _ _ :: _ => []
  | _, .fail _ :: _ => []

def Text.applications (t : Text) : List Fold := applied [] (layout [] t.items)

/-- The lines that are logged of a run over a text. -/
def Text.log (t : Text) : List String := (t.run.records t).map Record.render

/-- The line of one application: both operands as they were computed, not normalized. -/
def Fold.line (f : Fold) : String :=
  "TRACE fold " ++ toString f.left.value ++ " " ++ toString f.op.symbol ++ " " ++
    toString f.right.value

theorem applied_of_length_lt {stack : List Operand} (h : stack.length < 2) (op : Operator)
    (offset : Nat) (events : List Event) : applied stack (.fold op offset :: events) = [] := by
  obtain _ | ⟨x, _ | ⟨y, below⟩⟩ := stack
  · rfl
  · rfl
  · rw [List.length_cons, List.length_cons] at h
    omega

/-- To carry events out is to note the operators that find two operands. -/
theorem Bench.folds_carryOut (b : Bench) (events : List Event) :
    foldsOf (b.carryOut events) = b.folds.reverse ++ applied b.operands events := by
  induction events generalizing b with
  | nil => exact (List.append_nil _).symm
  | cons event events ih =>
    cases event with
    | push x => exact ih (b.push x)
    | fail fault => exact (List.append_nil _).symm
    | fold op offset =>
      rw [carryOut_fold]
      obtain ⟨right, left, below, value, hb, happly, hfold⟩ |
        ⟨right, left, below, hb, happly, hfold⟩ | ⟨hlength, hfold⟩ := b.fold_cases op offset
      · rw [hfold, hb, ok_bind, ih]
        simp [applied, happly]
      · rw [hfold, hb]
        simp [applied, happly, foldsOf]
      · rw [hfold, applied_of_length_lt hlength, List.append_nil]
        rfl

namespace Text

theorem folds_state_bind_finish (t : Text) :
    foldsOf (t.state >>= State.finish) = t.applications := by
  have hrun : Bench.empty.carryOut (layout [] t.items) = t.state >>= State.finish :=
    State.carryOut_layout t.items (s := .start) rfl
  rw [← hrun, Bench.folds_carryOut]
  rfl

theorem folds_run (t : Text) : t.run.folds = t.applications := by
  rw [folds_run_eq, folds_state_bind_finish]

/-- The line of the value has the text between quotes as it is. -/
theorem render_evaluated {t : Text} {v : Decimal} (h : evaluate t = .ok v) :
    (Record.evaluated t v).render =
      "DEBUG evaluated \"" ++ String.ofList t ++ "\" to " ++ toString v := by
  have hquote : String.ofList t.quote = "\"" ++ String.ofList t ++ "\"" := by
    rw [(lexes_of_evaluate h).quote_eq]
    simp [← String.toList_inj]
  have hopen : "DEBUG evaluated \"" = "DEBUG evaluated " ++ "\"" := by decide
  have hclose : "\" to " = "\"" ++ " to " := by decide
  change "DEBUG evaluated " ++ String.ofList t.quote ++ " to " ++ toString v = _
  rw [hquote, hopen, hclose]
  simp only [String.append_assoc]

theorem log_of_ok {t : Text} {v : Decimal} (h : evaluate t = .ok v) :
    t.log = t.applications.map Fold.line ++
      ["DEBUG evaluated \"" ++ String.ofList t ++ "\" to " ++ toString v] := by
  have hrun : t.run = ⟨t.applications, .ok v⟩ := by rw [← folds_run, ← h, evaluate]
  rw [log, hrun, Outcome.records_ok, List.map_append, List.map_map, List.map_singleton,
    render_evaluated h]
  rfl

theorem log_of_error {t : Text} {f : Fault} (h : evaluate t = .error f) :
    t.log = t.applications.map Fold.line := by
  have hrun : t.run = ⟨t.applications, .error f⟩ := by rw [← folds_run, ← h, evaluate]
  rw [log, hrun, Outcome.records_error, List.map_map]
  rfl

/-- A run that comes to its end has applied each operator of the text once. -/
theorem applications_perm {t : Text} {bench : Bench}
    (h : t.state >>= State.finish = .ok bench) :
    (t.applications.map Fold.item).Perm t.operators := by
  have hfolds := t.folds_state_bind_finish
  rw [h] at hfolds
  rw [← hfolds, foldsOf, List.map_reverse]
  exact (List.reverse_perm _).trans (folds_perm_operators h)

/-- A run that fails has halted, or it has come to its end and counted its operands. -/
theorem halts_or_counts {t : Text} {f : Fault} (h : evaluate t = .error f) :
    (∃ halt, State.Halts State.Tallies t halt ∧ halt.fault = f ∧
      halt.folds.reverse = t.applications) ∨
    (t.applications.map Fold.item).Perm t.operators ∧ IsCount (.error f) := by
  have hfolds := t.folds_state_bind_finish
  rw [evaluate_eq] at h
  cases hrun : t.state >>= State.finish with
  | error halt =>
    rw [hrun] at h hfolds
    exact .inl ⟨halt, State.tallies_invariant.halts hrun, Except.error.inj h, hfolds⟩
  | ok bench =>
    rw [hrun] at h
    have hcount := bench.isCount_result (byteLength t)
    rw [show bench.result (byteLength t) = .error f from h] at hcount
    exact .inr ⟨applications_perm hrun, hcount⟩

/-- What a fault tells of the applications in front of it. -/
theorem applications_of_error {t : Text} {f : Fault} (h : evaluate t = .error f) :
    (t.applications.map Fold.item).Subperm t.operators ∧
    (f.kind = .divisionByZero → ∃ before last, t.applications = before ++ [last] ∧
      last.op.apply last.left.value last.right.value = .error .divisionByZero ∧
      f.span = last.right.span) ∧
    ∀ op, f.cause = .missingOperand op → ∃ offset, f.span = .single offset ∧
      ⟨.mark op.symbol, offset⟩ ∈ t.operators ∧
      ⟨.mark op.symbol, offset⟩ ∉ t.applications.map Fold.item := by
  obtain ⟨halt, hhalts, rfl, hfolds⟩ | ⟨hperm, hcount⟩ := halts_or_counts h
  · rw [← hfolds, List.map_reverse]
    refine ⟨(List.reverse_perm _).subperm.trans hhalts.subperm_operators, ?_, ?_⟩
    · intro hkind
      obtain ⟨last, before, hlast, happly, hspan⟩ := hhalts.divisionByZero hkind
      exact ⟨before.reverse, last, by rw [hlast, List.reverse_cons], happly, hspan⟩
    · intro op hcause
      obtain ⟨offset, hspan, hmem, hnot⟩ := hhalts.missingOperand hcause
      exact ⟨offset, hspan, hmem, by rwa [List.mem_reverse]⟩
  · refine ⟨hperm.subperm, ?_, ?_⟩
    · intro hkind
      simp [IsCount, hkind] at hcount
    · intro op hcause
      simp [IsCount, Fault.kind, hcause, Cause.kind] at hcount

end Text

/-- The log of a run is what it did: one line for each operator that was applied to two operands, in
the order of application, with the operands as they were computed, and after a value one line more,
in which the text stands between the quotes as it is. With a value each operator of the text was
applied once. Without one no operator was applied twice, a division by zero is the last one applied,
and an operator that lacks an operand was not applied. In a text that spells a tree the operators
are applied in post-order, as far as to the first division by zero. -/
theorem log_of_run (t : Text) :
    (∀ v, evaluate t = .ok v →
      t.log = t.applications.map Fold.line ++
        ["DEBUG evaluated \"" ++ String.ofList t ++ "\" to " ++ toString v] ∧
      (t.applications.map Fold.item).Perm t.operators ∧
      t.applications.length = t.operators.length) ∧
    (∀ f, evaluate t = .error f →
      t.log = t.applications.map Fold.line ∧
      (t.applications.map Fold.item).Subperm t.operators ∧
      (f.kind = .divisionByZero → ∃ before last, t.applications = before ++ [last] ∧
        last.op.apply last.left.value last.right.value = .error .divisionByZero ∧
        f.span = last.right.span) ∧
      ∀ op, f.cause = .missingOperand op → ∃ offset, f.span = .single offset ∧
        ⟨.mark op.symbol, offset⟩ ∈ t.operators ∧
        ⟨.mark op.symbol, offset⟩ ∉ t.applications.map Fold.item) ∧
    ∀ e, Spelled .expr 0 t e →
      List.Forall₂ Fold.Applies t.applications
        (upToFirst Expression.isZeroDivision e.operations) := by
  refine ⟨fun v hv => ?_, fun f hf => ⟨Text.log_of_error hf, ?_⟩, fun e he => ?_⟩
  · have hcount : IsCount (evaluate t) := by
      rw [hv]
      trivial
    obtain ⟨⟨bench, hrun, -⟩, -⟩ := Text.counted_of_isCount hcount
    have hperm := Text.applications_perm hrun
    refine ⟨Text.log_of_ok hv, hperm, ?_⟩
    rw [← hperm.length_eq, List.length_map]
  · exact Text.applications_of_error hf
  · rw [← t.folds_state_bind_finish]
    exact Expression.folds_of_spelled he

/-- In `1.0+2*3` the sum shows its left operand as it was written. The division in `1/0+2` is the
last that is logged, and the product in `2*(3+)`, whose sum has taken both operands, is not. -/
theorem log_of_run_instances :
    Text.log ['1', '.', '0', '+', '2', '*', '3'] =
      ["TRACE fold 2 * 3", "TRACE fold 1.0 + 6", "DEBUG evaluated \"1.0+2*3\" to 7"] ∧
    (∃ before last, Text.applications ['1', '/', '0', '+', '2'] = before ++ [last] ∧
      last.op.apply last.left.value last.right.value = .error .divisionByZero ∧
      ⟨2, 3⟩ = last.right.span) ∧
    List.Forall₂ Fold.Applies (Text.applications ['1', '/', '0', '+', '2'])
      [.binary .slash 1 (.literal ['1'] 0) (.literal ['0'] 2)] ∧
    ∃ offset, Span.single 1 = .single offset ∧
      ⟨.mark '*', offset⟩ ∈ Text.operators ['2', '*', '(', '3', '+', ')'] ∧
      ⟨.mark '*', offset⟩ ∉
        (Text.applications ['2', '*', '(', '3', '+', ')']).map Fold.item := by
  have hspelled : Spelled .expr 0 ['1', '/', '0', '+', '2']
      (.binary .plus 3 (.binary .slash 1 (.literal ['1'] 0) (.literal ['0'] 2))
        (.literal ['2'] 4)) :=
    .sum (s := ['1', '/', '0']) (.inl rfl)
      (.ofTerm (.product (s := ['1']) (.inr rfl) (.ofFactor (.literal (by decide)))
        (.literal (by decide))))
      (.ofFactor (.literal (by decide)))
  refine ⟨?_, ?_, ?_, ?_⟩
  · rw [((log_of_run _).1 ⟨7, 0⟩ (by decide +kernel)).1]
    decide +kernel
  · exact ((log_of_run _).2.1 ⟨.divisionByZero, ⟨2, 3⟩⟩ (by decide +kernel)).2.2.1 rfl
  · have hcut : upToFirst Expression.isZeroDivision (Expression.operations (.binary .plus 3
        (.binary .slash 1 (.literal ['1'] 0) (.literal ['0'] 2)) (.literal ['2'] 4))) =
        [.binary .slash 1 (.literal ['1'] 0) (.literal ['0'] 2)] := by decide +kernel
    rw [← hcut]
    exact (log_of_run _).2.2 _ hspelled
  · exact ((log_of_run _).2.1 ⟨.missingOperand .star, .single 1⟩ (by decide +kernel)).2.2.2 .star
      rfl

end ExactCalculator
