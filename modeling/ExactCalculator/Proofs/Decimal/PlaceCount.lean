import ExactCalculator.Limits
import ExactCalculator.Proofs.Decimal.FirstMisfit

/-!
The places of a literal, counted within a limit. A text has at most as many places as characters, so
below the limit the count is the one that the literal is read with
(`Decimal.ofLiteralBelow?_eq`).
-/
namespace ExactCalculator

namespace LiteralScan

def keepBelow? (limit : Nat) (s : LiteralScan) : Option LiteralScan :=
  (below? limit (s.places?.getD 0)).map fun _ => s

/-- The rest of a pass over a text, in which the places are counted one by one. -/
def scanBelow? (limit : Nat) (s : LiteralScan) : Text → Option (Except LiteralError LiteralScan)
  | [] => some (.ok s)
  | c :: t =>
    match s.step c with
    | .error reason => some (.error reason)
    | .ok next => next.keepBelow? limit >>= fun next => scanBelow? limit next t

/-- A character is at most one more place. -/
theorem places_step_le {s next : LiteralScan} {c : Char} (h : s.step c = .ok next) :
    next.places?.getD 0 ≤ s.places?.getD 0 + 1 := by
  unfold step at h
  split at h
  · cases h
    cases s.places? <;> simp
  · split at h
    · split at h
      · cases h
        simp
      · cases h
    · cases h

theorem scanBelow?_eq {limit : Nat} (t : Text) {s : LiteralScan}
    (h : s.places?.getD 0 + t.length < limit) : scanBelow? limit s t = some (t.foldlM step s) := by
  induction t generalizing s with
  | nil => rfl
  | cons c t ih =>
    rw [scanBelow?, List.foldlM_cons]
    cases hstep : s.step c with
    | error reason => rfl
    | ok next =>
      have hplaces := places_step_le hstep
      rw [List.length_cons] at h
      have hkeep : next.keepBelow? limit = some next := by
        rw [keepBelow?, below?_of_lt (by omega), Option.map_some]
      simp only [hkeep, Option.bind_eq_bind, Option.bind_some]
      exact ih (by omega)

end LiteralScan

def Decimal.ofLiteralBelow? (limit : Nat) (t : Text) : Option (Except LiteralError Decimal) :=
  (LiteralScan.scanBelow? limit .start t).map fun scanned => scanned >>= LiteralScan.close

/-- A text has at most as many places as characters. -/
theorem Decimal.ofLiteralBelow?_eq {limit : Nat} {t : Text} (h : t.length < limit) :
    ofLiteralBelow? limit t = some (ofLiteral t) := by
  have hstart : LiteralScan.start.places?.getD 0 + t.length < limit := by
    simpa [LiteralScan.start] using h
  rw [ofLiteralBelow?, LiteralScan.scanBelow?_eq t hstart, Option.map_some, ofLiteral_eq_scan,
    Text.scan]

end ExactCalculator
