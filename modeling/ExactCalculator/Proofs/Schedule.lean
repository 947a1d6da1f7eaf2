import ExactCalculator.Proofs.Run.Steps

/-!
The schedule of a run, laid out without a look at any value and without a stack. Every operator is
folded once: at the first token behind it in its own group that is an operator of no higher
precedence or the parenthesis that closes the group, or else at the end. Of several folds at one
place the rightmost operator comes first. Playing the schedule needs nothing but a stack of values.
-/
namespace ExactCalculator

inductive Event where
  | push (x : Operand)
  | fold (op : Operator) (offset : Nat)
  | fail (fault : Fault)
  deriving DecidableEq, Repr

namespace Token

/-- How many inner groups are open behind a token when so many are open in front of it. -/
def deepen (t : Token) (depth : Nat) : Nat :=
  match t.meaning with
  | .opening => depth + 1
  | .closing => depth - 1
  | _ => depth

def closes (t : Token) : Bool := t.meaning == .closing

end Token

/-- Whether an operator is folded at the latest when this token of its group comes. -/
def Operator.dueAt (op : Operator) (t : Token) : Bool :=
  match t.meaning with
  | .operator next => next.precedence ≤ op.precedence
  | .closing => true
  | _ => false

/-- The place of the first token of a kind that stands in the group itself, so many inner groups
being open at the beginning. -/
def firstInGroup? (p : Token → Bool) (depth : Nat) : List Token → Option Nat
  | [] => none
  | t :: ts =>
    if depth = 0 ∧ p t = true then some 0
    else (firstInGroup? p (t.deepen depth) ts).map (· + 1)

/-- The folds of those operators, the rightmost first, whose tokens behind meet a condition. -/
def foldsWhere (p : Operator → List Token → Bool) : List Token → List Event
  | [] => []
  | t :: behind =>
    foldsWhere p behind ++
      match t.meaning with
      | .operator op => if p op behind then [.fold op t.offset] else []
      | _ => []

/-- The folds that are due at a token, given those in front of it. -/
def foldsAt (before : List Token) (t : Token) : List Event :=
  foldsWhere (fun op between => firstInGroup? op.dueAt 0 (between ++ [t]) == some between.length)
    before

def foldsAtEnd (tokens : List Token) : List Event :=
  foldsWhere (fun op behind => firstInGroup? op.dueAt 0 behind == none) tokens

/-- The last opening parenthesis without a partner, and the tokens behind it. -/
def lastOpen? : List Token → Option (Token × List Token)
  | [] => none
  | t :: behind =>
    (lastOpen? behind).or
      (if t.meaning = .opening ∧ firstInGroup? Token.closes 0 behind = none then some (t, behind)
        else none)

/-- The events of a text: at each item the folds that are due there, then what the item does. -/
def layout (before : List Token) : List Item → List Event
  | [] =>
    match lastOpen? before with
    | none => foldsAtEnd before
    | some (paren, behind) =>
      foldsAtEnd behind ++ [.fail ⟨.unmatchedParen .opening, .single paren.offset⟩]
  | i :: items =>
    match i.token with
    | .error fault => [.fail fault]
    | .ok t =>
      foldsAt before t ++
        match t.meaning with
        | .number value => .push ⟨value, t.span⟩ :: layout (before ++ [t]) items
        | .closing =>
          if lastOpen? before = none then
            [.fail ⟨.unmatchedParen .closing, .single t.offset⟩]
          else layout (before ++ [t]) items
        | _ => layout (before ++ [t]) items

/-- What a stack of values, the newest first, comes to at the end of a text. -/
def conclude (length : Nat) (stack : List Operand) : Except Fault Decimal :=
  match stack.reverse with
  | [] => .error ⟨.emptyExpression, ⟨0, length⟩⟩
  | [x] => .ok x.value.normalized
  | _ :: extra :: _ => .error ⟨.danglingOperand, extra.span⟩

/-- Carries the events out one after the other; the first failure is the outcome. -/
def play (length : Nat) : List Operand → List Event → Except Fault Decimal
  | stack, [] => conclude length stack
  | stack, .push x :: events => play length (x :: stack) events
  | right :: left :: below, .fold op _ :: events =>
    match op.apply left.value right.value with
    | .ok value => play length (⟨value, left.span.join right.span⟩ :: below) events
    | .error .divisionByZero => .error ⟨.divisionByZero, right.span⟩
  | _, .fold op offset :: _ => .error ⟨.missingOperand op, .single offset⟩
  | _, .fail fault :: _ => .error fault

def depthBehind (ts : List Token) (depth : Nat) : Nat :=
  ts.foldl (fun depth t => t.deepen depth) depth

@[simp] theorem depthBehind_nil (depth : Nat) : depthBehind [] depth = depth := rfl
@[simp] theorem depthBehind_cons (t : Token) (ts : List Token) (depth : Nat) :
    depthBehind (t :: ts) depth = depthBehind ts (t.deepen depth) := rfl

/-- A group is searched in its first part, and then in the rest at the depth that is reached. -/
theorem firstInGroup?_append (p : Token → Bool) (depth : Nat) (ts us : List Token) :
    firstInGroup? p depth (ts ++ us) =
      (firstInGroup? p depth ts).or
        ((firstInGroup? p (depthBehind ts depth) us).map (· + ts.length)) := by
  induction ts generalizing depth with
  | nil => simp [firstInGroup?]
  | cons t ts ih =>
    simp only [List.cons_append, firstInGroup?]
    split
    · rfl
    · rw [ih, depthBehind_cons, Option.map_or, Option.map_map]
      rfl

theorem firstInGroup?_lt {p : Token → Bool} {depth n : Nat} {ts : List Token}
    (h : firstInGroup? p depth ts = some n) : n < ts.length := by
  induction ts generalizing depth n with
  | nil => cases h
  | cons t ts ih =>
    simp only [firstInGroup?] at h
    split at h
    · cases h
      simp
    · obtain ⟨m, hm, rfl⟩ := Option.map_eq_some_iff.mp h
      simpa using ih hm

/-- A token that was found stays the first one. -/
theorem firstInGroup?_concat_of_some {p : Token → Bool} {n : Nat} {ts : List Token}
    (h : firstInGroup? p 0 ts = some n) (t : Token) : firstInGroup? p 0 (ts ++ [t]) = some n := by
  rw [firstInGroup?_append, h]
  rfl

theorem firstInGroup?_concat_of_none {p : Token → Bool} {ts : List Token}
    (h : firstInGroup? p 0 ts = none) (t : Token) :
    firstInGroup? p 0 (ts ++ [t]) =
      if depthBehind ts 0 = 0 ∧ p t = true then some ts.length else none := by
  rw [firstInGroup?_append, h, Option.none_or, firstInGroup?]
  split <;> simp [firstInGroup?]

theorem firstInGroup?_mono {p q : Token → Bool} (h : ∀ t, q t = true → p t = true) {depth : Nat}
    {ts : List Token} (hnone : firstInGroup? p depth ts = none) :
    firstInGroup? q depth ts = none := by
  induction ts generalizing depth with
  | nil => rfl
  | cons t ts ih =>
    simp only [firstInGroup?] at hnone ⊢
    split at hnone
    · cases hnone
    next hp =>
      rw [if_neg fun hq => hp ⟨hq.1, h t hq.2⟩, ih (Option.map_eq_none_iff.mp hnone)]
      rfl

end ExactCalculator
