import ExactCalculator.Run.Bench
import ExactCalculator.Token

/-!
The state of a run: operators and open parentheses that wait, above a bench of operands. An
operator waits until one arrives that binds no tighter, or until its group ends; then it is
applied. Folding goes no further down than to the nearest open parenthesis. Nothing checks that
operators stand between operands, so `2 3 +` has a value.
-/
namespace ExactCalculator

/-- What waits for the rest of the text, at its byte position. -/
inductive Pending where
  | paren (offset : Nat)
  | operator (op : Operator) (offset : Nat)
  deriving DecidableEq, Repr

def Pending.offset : Pending → Nat
  | .paren offset => offset
  | .operator _ offset => offset

structure State where
  /-- The latest first. -/
  pending : List Pending
  bench : Bench
  deriving DecidableEq, Repr

namespace State

def start : State := ⟨[], .empty⟩

/-- Folds the waiting operators, the latest first, as long as they are among those given. -/
def unwind (among : Operator → Bool) : List Pending → Bench → Except Halt State
  | .operator op offset :: below, bench =>
    if among op then
      match bench.fold op offset with
      | .ok bench => unwind among below bench
      | .error halt => .error halt
    else .ok ⟨.operator op offset :: below, bench⟩
  | pending, bench => .ok ⟨pending, bench⟩

/-- Folds the waiting operators that bind at least as tightly as the given one. -/
def giveWay (s : State) (op : Operator) : Except Halt State :=
  unwind (fun waiting => op.precedence ≤ waiting.precedence) s.pending s.bench

/-- Folds all waiting operators of the innermost group. -/
def endGroup (s : State) : Except Halt State :=
  unwind (fun _ => true) s.pending s.bench

def feed (s : State) (t : Token) : Except Halt State :=
  match t.meaning with
  | .number value => .ok ⟨s.pending, s.bench.push ⟨value, t.span⟩⟩
  | .opening => .ok ⟨.paren t.offset :: s.pending, s.bench⟩
  | .operator op =>
    match s.giveWay op with
    | .ok s => .ok ⟨.operator op t.offset :: s.pending, s.bench⟩
    | .error halt => .error halt
  | .closing =>
    match s.endGroup with
    | .ok ⟨.paren _ :: below, bench⟩ => .ok ⟨below, bench⟩
    | .ok s => .error (s.bench.halt ⟨.unmatchedParen .closing, .single t.offset⟩)
    | .error halt => .error halt

/-- Takes in one lexeme; a fault of the lexeme itself ends the run. -/
def read (s : State) (i : Item) : Except Halt State :=
  match i.token with
  | .ok t => s.feed t
  | .error fault => .error (s.bench.halt fault)

/-- Takes in lexemes until one of them ends the run. -/
def readAll (s : State) : List Item → Except Halt State
  | [] => .ok s
  | i :: items =>
    match s.read i with
    | .ok s => s.readAll items
    | .error halt => .error halt

/-- Folds what waits at the end of the text, where no parenthesis may be open any more. -/
def finish (s : State) : Except Halt Bench :=
  match s.endGroup with
  | .ok ⟨[], bench⟩ => .ok bench
  | .ok ⟨p :: _, bench⟩ =>
    .error (bench.halt ⟨.unmatchedParen .opening, .single p.offset⟩)
  | .error halt => .error halt

@[simp] theorem unwind_nil (among : Operator → Bool) (bench : Bench) :
    unwind among [] bench = .ok ⟨[], bench⟩ := rfl
@[simp] theorem unwind_paren (among : Operator → Bool) (offset : Nat) (below : List Pending)
    (bench : Bench) :
    unwind among (.paren offset :: below) bench = .ok ⟨.paren offset :: below, bench⟩ := rfl

/-- An operator that is not among those given keeps what lies below it. -/
theorem unwind_operator_of_not_among {among : Operator → Bool} {op : Operator} {offset : Nat}
    {below : List Pending} {bench : Bench} (hop : among op = false) :
    unwind among (.operator op offset :: below) bench =
      .ok ⟨.operator op offset :: below, bench⟩ := by
  simp [unwind, hop]

@[simp] theorem readAll_nil (s : State) : s.readAll [] = .ok s := rfl

/-- Reading in two parts is reading the second part from where the first one led. -/
theorem readAll_append (s : State) (items more : List Item) :
    s.readAll (items ++ more) = s.readAll items >>= fun s => s.readAll more := by
  induction items generalizing s with
  | nil => rfl
  | cons i items ih =>
    simp only [List.cons_append, readAll]
    cases s.read i with
    | ok s => exact ih s
    | error halt => rfl

/-- Folding stops at a parenthesis, at an operator that is not among those given, or at nothing. -/
theorem pending_of_unwind {among : Operator → Bool} {pending : List Pending} {bench : Bench}
    {s : State} (h : unwind among pending bench = .ok s) :
    ∀ op offset below, s.pending = .operator op offset :: below → among op = false := by
  induction pending generalizing bench with
  | nil =>
    cases h
    simp
  | cons p below ih =>
    cases p with
    | paren offset =>
      cases h
      simp
    | operator op offset =>
      simp only [unwind] at h
      split at h
      · split at h
        next b hb => exact ih h
        next => cases h
      · next hop =>
        cases h
        intro op' offset' below' hp
        cases hp
        simpa using hop

end State
end ExactCalculator
