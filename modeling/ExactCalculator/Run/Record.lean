import ExactCalculator.Run.Outcome
import ExactCalculator.Text.Quoted

/-!
The log of a run: one record for every operator applied, in order, and after them one for the
value, when there is one.
-/
namespace ExactCalculator

inductive Record where
  | fold (f : Fold)
  | evaluated (t : Text) (value : Decimal)
  deriving DecidableEq, Repr

namespace Record

def render : Record → String
  | .fold f => s!"TRACE fold {f.left.value} {f.op.symbol} {f.right.value}"
  | .evaluated t value => s!"DEBUG evaluated {String.ofList t.quote} to {value}"

end Record

def Outcome.records (o : Outcome) (t : Text) : List Record :=
  o.folds.map .fold ++
    match o.result with
    | .ok value => [.evaluated t value]
    | .error _ => []

@[simp] theorem Outcome.records_error (folds : List Fold) (fault : Fault) (t : Text) :
    (Outcome.mk folds (.error fault)).records t = folds.map .fold := by
  simp [records]

@[simp] theorem Outcome.records_ok (folds : List Fold) (value : Decimal) (t : Text) :
    (Outcome.mk folds (.ok value)).records t = folds.map .fold ++ [.evaluated t value] := rfl

end ExactCalculator
