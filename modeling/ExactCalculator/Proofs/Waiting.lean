import ExactCalculator.Proofs.Schedule
import Mathlib.Data.List.TakeWhile

/-!
What waits after some tokens, told by the schedule: an operator that is not due yet, and a
parenthesis whose partner has not come. The nearest entries that a token releases are exactly
those due at it, because above an entry of the same group only operators of a higher precedence
wait (`precedence_lt_of_waiting`), and they are due at every token at which that entry is.
-/
namespace ExactCalculator

/-- What of a token can wait. -/
def Token.entry? (t : Token) : Option Pending :=
  match t.meaning with
  | .operator op => some (.operator op t.offset)
  | .opening => some (.paren t.offset)
  | _ => none

namespace Pending

/-- Whether an entry leaves at the latest when this token of its group comes. -/
def dueAt : Pending → Token → Bool
  | .operator op _, t => op.dueAt t
  | .paren _, t => t.closes

def foldedAt (t : Token) : Pending → Bool
  | .operator op _ => op.dueAt t
  | .paren _ => false

def fold? : Pending → Option Event
  | .operator op offset => some (.fold op offset)
  | .paren _ => none

def isParen : Pending → Bool
  | .operator _ _ => false
  | .paren _ => true

@[simp] theorem dueAt_operator (op : Operator) (offset : Nat) :
    (Pending.operator op offset).dueAt = op.dueAt := by
  funext t
  rfl

theorem dueAt_of_closes (p : Pending) {t : Token} (h : t.closes = true) : p.dueAt t = true := by
  have hm : t.meaning = .closing := eq_of_beq h
  cases p with
  | operator op offset => simp only [dueAt, Operator.dueAt, hm]
  | paren offset => exact h

theorem foldedAt_of_isParen {p : Pending} (h : p.isParen = true) (t : Token) :
    p.foldedAt t = false := by
  cases p with
  | operator op offset => cases h
  | paren offset => rfl

end Pending

/-- What waits after some tokens, the latest first. -/
def waiting : List Token → List Pending
  | [] => []
  | t :: behind =>
    waiting behind ++
      match t.entry? with
      | some p => if firstInGroup? p.dueAt 0 behind = none then [p] else []
      | none => []

theorem waiting_cons_of_none {t : Token} (h : t.entry? = none) (behind : List Token) :
    waiting (t :: behind) = waiting behind := by
  simp [waiting, h]

theorem waiting_cons_of_due {t : Token} {p : Pending} (h : t.entry? = some p)
    {behind : List Token} (hdue : firstInGroup? p.dueAt 0 behind ≠ none) :
    waiting (t :: behind) = waiting behind := by
  simp [waiting, h, hdue]

theorem waiting_cons_of_not_due {t : Token} {p : Pending} (h : t.entry? = some p)
    {behind : List Token} (hdue : firstInGroup? p.dueAt 0 behind = none) :
    waiting (t :: behind) = waiting behind ++ [p] := by
  simp [waiting, h, hdue]

/-- The number of closing parentheses whose partner does not stand among the tokens. -/
def surplus : List Token → Nat
  | [] => 0
  | t :: ts =>
    match t.meaning with
    | .opening => surplus ts - 1
    | .closing => surplus ts + 1
    | _ => surplus ts

/-- No token ends the group when each closing parenthesis belongs to an inner one. -/
theorem firstInGroup?_closes_eq_none_iff (depth : Nat) (ts : List Token) :
    firstInGroup? Token.closes depth ts = none ↔ surplus ts ≤ depth := by
  induction ts generalizing depth with
  | nil => simp [firstInGroup?, surplus]
  | cons t ts ih =>
    cases hm : t.meaning with
    | opening => simp [firstInGroup?, surplus, Token.closes, Token.deepen, hm, ih]
    | closing =>
      cases depth with
      | zero => simp [firstInGroup?, surplus, Token.closes, hm]
      | succ depth => simp [firstInGroup?, surplus, Token.deepen, hm, ih]
    | operator op => simp [firstInGroup?, surplus, Token.closes, Token.deepen, hm, ih]
    | number value => simp [firstInGroup?, surplus, Token.closes, Token.deepen, hm, ih]

/-- Behind tokens that do not end the group, as many groups are open as parentheses wait, apart
from those that were open before. -/
theorem depthBehind_add_surplus {depth : Nat} {ts : List Token} (h : surplus ts ≤ depth) :
    depthBehind ts depth + surplus ts = depth + (waiting ts).countP Pending.isParen := by
  induction ts generalizing depth with
  | nil => simp [surplus, waiting]
  | cons t ts ih =>
    have hpartner := firstInGroup?_closes_eq_none_iff 0 ts
    cases hm : t.meaning with
    | opening =>
      have hentry : t.entry? = some (.paren t.offset) := by simp [Token.entry?, hm]
      simp only [surplus, hm] at h
      have ih := @ih (depth + 1) (by omega)
      simp only [depthBehind_cons, Token.deepen, surplus, hm]
      by_cases hs : surplus ts = 0
      · rw [waiting_cons_of_not_due hentry (hpartner.mpr (by omega)), List.countP_append]
        simp only [List.countP_singleton, Pending.isParen, if_true]
        omega
      · rw [waiting_cons_of_due hentry fun hnone => hs (by have := hpartner.mp hnone; omega)]
        omega
    | closing =>
      have hentry : t.entry? = none := by simp [Token.entry?, hm]
      simp only [surplus, hm] at h
      have ih := @ih (depth - 1) (by omega)
      simp only [depthBehind_cons, Token.deepen, surplus, hm, waiting_cons_of_none hentry]
      omega
    | operator op =>
      have hentry : t.entry? = some (.operator op t.offset) := by simp [Token.entry?, hm]
      have hcount : (waiting (t :: ts)).countP Pending.isParen =
          (waiting ts).countP Pending.isParen := by
        rw [waiting, hentry, List.countP_append]
        simp only
        split <;> simp [Pending.isParen]
      simp only [surplus, hm] at h
      simp only [depthBehind_cons, Token.deepen, surplus, hm, hcount]
      exact ih h
    | number value =>
      have hentry : t.entry? = none := by simp [Token.entry?, hm]
      simp only [surplus, hm] at h
      simp only [depthBehind_cons, Token.deepen, surplus, hm, waiting_cons_of_none hentry]
      exact ih h

/-- Nothing has ended the group of an entry that waits. -/
theorem surplus_eq_zero_of_not_due {p : Pending} {ts : List Token}
    (h : firstInGroup? p.dueAt 0 ts = none) : surplus ts = 0 := by
  have hcloses := firstInGroup?_mono (fun t => p.dueAt_of_closes) h
  have := (firstInGroup?_closes_eq_none_iff 0 ts).mp hcloses
  omega

theorem depthBehind_of_not_due {p : Pending} {ts : List Token}
    (h : firstInGroup? p.dueAt 0 ts = none) :
    depthBehind ts 0 = (waiting ts).countP Pending.isParen := by
  have hs := surplus_eq_zero_of_not_due h
  have := depthBehind_add_surplus (by omega : surplus ts ≤ 0)
  omega

/-- Where the group of an operator goes on and the operator is not due, only operators of a higher
precedence wait above it. -/
theorem precedence_lt_of_waiting {op : Operator} {depth : Nat} {ts : List Token}
    (h : firstInGroup? op.dueAt depth ts = none) (hdepth : depthBehind ts depth = 0) :
    ∀ p ∈ waiting ts, ∃ op' offset, p = .operator op' offset ∧ op.precedence < op'.precedence := by
  induction ts generalizing depth with
  | nil =>
    intro p hp
    cases hp
  | cons t ts ih =>
    simp only [firstInGroup?] at h
    split at h
    · cases h
    next hdue =>
      have hrest := Option.map_eq_none_iff.mp h
      rw [depthBehind_cons] at hdepth
      intro p hp
      rw [waiting, List.mem_append] at hp
      obtain hp | hp := hp
      · exact ih hrest hdepth p hp
      · -- The token itself waits, so nothing behind it has ended the group that it stands in.
        cases hentry : t.entry? with
        | none => simp [hentry] at hp
        | some q =>
          by_cases hq : firstInGroup? q.dueAt 0 ts = none
          · simp only [hentry, hq, if_true, List.mem_singleton] at hp
            subst hp
            have hsurplus := surplus_eq_zero_of_not_due hq
            have hopen := depthBehind_add_surplus (by omega : surplus ts ≤ t.deepen depth)
            have hzero : t.deepen depth = 0 := by omega
            unfold Token.entry? at hentry
            split at hentry
            next op' hm =>
              cases hentry
              simp only [Token.deepen, hm] at hzero
              simp only [Operator.dueAt, hm, hzero, true_and, decide_eq_true_eq] at hdue
              exact ⟨op', _, rfl, by omega⟩
            next hm =>
              simp [Token.deepen, hm] at hzero
            next => cases hentry
          · simp [hentry, hq] at hp

/-- A token at which an entry is due takes everything that waits above it in the same group. -/
theorem foldedAt_of_waiting {p : Pending} {ts : List Token} {t : Token}
    (h : firstInGroup? p.dueAt 0 ts = none) (hdepth : depthBehind ts 0 = 0)
    (hdue : p.dueAt t = true) : ∀ q ∈ waiting ts, q.foldedAt t = true := by
  intro q hq
  cases p with
  | operator op offset =>
    obtain ⟨op', offset', rfl, hlt⟩ := precedence_lt_of_waiting h hdepth q hq
    simp only [Pending.dueAt, Operator.dueAt] at hdue
    simp only [Pending.foldedAt, Operator.dueAt]
    split at hdue
    · simp only [decide_eq_true_eq] at hdue ⊢
      omega
    · rfl
    · cases hdue
  | paren offset =>
    have hcount := depthBehind_of_not_due h
    rw [hdepth] at hcount
    have hm : t.meaning = .closing := eq_of_beq hdue
    cases q with
    | operator op offset => simp [Pending.foldedAt, Operator.dueAt, hm]
    | paren offset =>
      exact absurd rfl (List.countP_eq_zero.mp hcount.symm _ hq)

/-- With the next token an entry either goes on waiting, or it is due together with all above. -/
theorem waits_or_due {p : Pending} {ts : List Token} (h : firstInGroup? p.dueAt 0 ts = none)
    (t : Token) :
    (firstInGroup? p.dueAt 0 (ts ++ [t]) = none ∧
      ((∃ q ∈ waiting ts, q.isParen = true) ∨ p.dueAt t = false)) ∨
    (firstInGroup? p.dueAt 0 (ts ++ [t]) = some ts.length ∧ p.dueAt t = true ∧
      ∀ q ∈ waiting ts, q.foldedAt t = true) := by
  rw [firstInGroup?_concat_of_none h]
  by_cases hdue : depthBehind ts 0 = 0 ∧ p.dueAt t = true
  · exact .inr ⟨if_pos hdue, hdue.2, foldedAt_of_waiting h hdue.1 hdue.2⟩
  · refine .inl ⟨if_neg hdue, ?_⟩
    by_cases hdepth : depthBehind ts 0 = 0
    · exact .inr (by simpa [hdepth] using hdue)
    · rw [depthBehind_of_not_due h] at hdepth
      exact .inl (List.countP_pos_iff.mp (by omega))

/-- What goes on waiting when a token has come. -/
def remaining (t : Token) (pending : List Pending) : List Pending :=
  match t.meaning with
  | .opening => .paren t.offset :: pending
  | .operator op => .operator op t.offset :: pending.dropWhile (Pending.foldedAt t)
  | .closing => (pending.dropWhile (Pending.foldedAt t)).tail
  | .number _ => pending

theorem takeWhile_concat {α : Type} {f : α → Bool} {l : List α} {b : α}
    (h : (∃ a ∈ l, f a = false) ∨ f b = false) : (l ++ [b]).takeWhile f = l.takeWhile f := by
  induction l with
  | nil => simpa using h
  | cons a l ih =>
    by_cases ha : f a = true
    · simp only [List.mem_cons, exists_eq_or_imp, ha, Bool.true_eq_false, false_or] at h
      rw [List.cons_append, List.takeWhile_cons_of_pos ha, List.takeWhile_cons_of_pos ha, ih h]
    · rw [List.cons_append, List.takeWhile_cons_of_neg ha, List.takeWhile_cons_of_neg ha]

theorem dropWhile_concat {α : Type} {f : α → Bool} {l : List α} {b : α}
    (h : (∃ a ∈ l, f a = false) ∨ f b = false) :
    (l ++ [b]).dropWhile f = l.dropWhile f ++ [b] := by
  induction l with
  | nil =>
    have hb : ¬ f b = true := by simpa using h
    rw [List.nil_append, List.dropWhile_cons_of_neg hb]
    rfl
  | cons a l ih =>
    by_cases ha : f a = true
    · simp only [List.mem_cons, exists_eq_or_imp, ha, Bool.true_eq_false, false_or] at h
      rw [List.cons_append, List.dropWhile_cons_of_pos ha, List.dropWhile_cons_of_pos ha, ih h]
    · rw [List.cons_append, List.dropWhile_cons_of_neg ha, List.dropWhile_cons_of_neg ha]
      rfl

theorem Pending.foldedAt_of_not_dueAt {p : Pending} {t : Token} (h : p.dueAt t = false) :
    p.foldedAt t = false := by
  cases p with
  | operator op offset => exact h
  | paren offset => rfl

/-- Above an entry that goes on waiting, or at it, folding stops. -/
theorem exists_not_foldedAt {pending : List Pending} {p : Pending} {t : Token}
    (h : (∃ q ∈ pending, q.isParen = true) ∨ p.dueAt t = false) :
    (∃ q ∈ pending, q.foldedAt t = false) ∨ p.foldedAt t = false := by
  cases h with
  | inl h =>
    obtain ⟨q, hq, hparen⟩ := h
    exact .inl ⟨q, hq, Pending.foldedAt_of_isParen hparen t⟩
  | inr h => exact .inr (Pending.foldedAt_of_not_dueAt h)

/-- An entry that goes on waiting does so below all that remains of those above it. -/
theorem remaining_concat_of_waits {pending : List Pending} {p : Pending} {t : Token}
    (h : (∃ q ∈ pending, q.isParen = true) ∨ p.dueAt t = false) :
    remaining t (pending ++ [p]) = remaining t pending ++ [p] := by
  have hdrop := dropWhile_concat (exists_not_foldedAt h)
  unfold remaining
  cases hm : t.meaning with
  | opening => rfl
  | operator op =>
    simp only [hdrop]
    rfl
  | closing =>
    simp only [hdrop]
    refine List.tail_append_of_ne_nil ?_
    intro hnil
    have hall := List.dropWhile_eq_nil_iff.mp hnil
    cases h with
    | inl h =>
      obtain ⟨q, hq, hparen⟩ := h
      have := hall q hq
      rw [Pending.foldedAt_of_isParen hparen] at this
      cases this
    | inr h =>
      rw [p.dueAt_of_closes (beq_iff_eq.mpr hm)] at h
      cases h
  | number value => rfl

/-- An entry that is due leaves together with all above it. -/
theorem remaining_concat_of_due {pending : List Pending} {p : Pending} {t : Token}
    (h : ∀ q ∈ pending, q.foldedAt t = true) (hdue : p.dueAt t = true) :
    remaining t (pending ++ [p]) = remaining t pending := by
  have hdrop : (pending ++ [p]).dropWhile (Pending.foldedAt t) =
      [p].dropWhile (Pending.foldedAt t) := List.dropWhile_append_of_pos h
  have hnil : pending.dropWhile (Pending.foldedAt t) = [] := List.dropWhile_eq_nil_iff.mpr h
  unfold remaining
  cases p with
  | operator op offset =>
    have hp : Pending.foldedAt t (.operator op offset) = true := hdue
    rw [List.dropWhile_cons_of_pos hp, List.dropWhile_nil] at hdrop
    rw [hdrop, hnil]
    simp only [Pending.dueAt, Operator.dueAt] at hdue
    split at hdue
    next hm => rw [hm]
    next hm => rw [hm]
    next => cases hdue
  | paren offset =>
    have hm : t.meaning = .closing := eq_of_beq hdue
    rw [hm, hdrop, hnil]
    rfl

theorem foldedAt_concat_of_due {pending : List Pending} {p : Pending} {t : Token}
    (h : ∀ q ∈ pending, q.foldedAt t = true) (hdue : p.dueAt t = true) :
    ((pending ++ [p]).takeWhile (Pending.foldedAt t)).filterMap Pending.fold? =
      (pending.takeWhile (Pending.foldedAt t)).filterMap Pending.fold? ++ p.fold?.toList := by
  rw [List.takeWhile_append_of_pos h, List.filterMap_append, List.takeWhile_eq_self_iff.mpr h]
  cases p with
  | operator op offset =>
    have hp : Pending.foldedAt t (.operator op offset) = true := hdue
    rw [List.takeWhile_cons_of_pos hp]
    rfl
  | paren offset => rfl

/-- What waits with one token more. -/
theorem waiting_concat (before : List Token) (t : Token) :
    waiting (before ++ [t]) = remaining t (waiting before) := by
  induction before with
  | nil =>
    rw [List.nil_append, waiting, remaining]
    cases hm : t.meaning <;> simp [Token.entry?, hm, waiting, firstInGroup?]
  | cons u behind ih =>
    rw [List.cons_append]
    cases hentry : u.entry? with
    | none => rw [waiting_cons_of_none hentry, waiting_cons_of_none hentry, ih]
    | some p =>
      cases hdue : firstInGroup? p.dueAt 0 behind with
      | some n =>
        have hstill := firstInGroup?_concat_of_some hdue t
        rw [waiting_cons_of_due hentry (by simp [hstill]),
          waiting_cons_of_due hentry (by simp [hdue]), ih]
      | none =>
        rw [waiting_cons_of_not_due hentry hdue]
        obtain ⟨hwaits, hcase⟩ | ⟨hdueNow, hp, hall⟩ := waits_or_due hdue t
        · rw [waiting_cons_of_not_due hentry hwaits, ih, remaining_concat_of_waits hcase]
        · rw [waiting_cons_of_due hentry (by simp [hdueNow]), ih, remaining_concat_of_due hall hp]

/-- What a token adds to the folds of those behind it, by the entry that can wait. -/
theorem foldsWhere_cons (p : Operator → List Token → Bool) (t : Token) (behind : List Token) :
    foldsWhere p (t :: behind) =
      foldsWhere p behind ++
        match t.entry? with
        | some (.operator op offset) => if p op behind then [.fold op offset] else []
        | _ => [] := by
  rw [foldsWhere]
  cases hm : t.meaning <;> simp [Token.entry?, hm]

/-- The folds due at a token are those of the nearest waiting operators that it takes. -/
theorem foldsAt_eq (before : List Token) (t : Token) :
    foldsAt before t =
      ((waiting before).takeWhile (Pending.foldedAt t)).filterMap Pending.fold? := by
  induction before with
  | nil => rfl
  | cons u behind ih =>
    rw [foldsAt] at ih
    rw [foldsAt, foldsWhere_cons, ih]
    cases hentry : u.entry? with
    | none => rw [waiting_cons_of_none hentry, List.append_nil]
    | some p =>
      cases hdue : firstInGroup? p.dueAt 0 behind with
      | some n =>
        -- An operator that left before is not folded again.
        have hlt := firstInGroup?_lt hdue
        have hstill := firstInGroup?_concat_of_some hdue t
        rw [waiting_cons_of_due hentry (by simp [hdue])]
        cases p with
        | operator op offset =>
          have hne : ¬ n = behind.length := by omega
          simp only [Pending.dueAt_operator] at hstill
          simp [hstill, hne]
        | paren offset => simp
      | none =>
        rw [waiting_cons_of_not_due hentry hdue]
        obtain ⟨hwaits, hcase⟩ | ⟨hdueNow, hp, hall⟩ := waits_or_due hdue t
        · rw [takeWhile_concat (exists_not_foldedAt hcase)]
          cases p with
          | operator op offset =>
            simp only [Pending.dueAt_operator] at hwaits
            simp [hwaits]
          | paren offset => simp
        · rw [foldedAt_concat_of_due hall hp]
          cases p with
          | operator op offset =>
            simp only [Pending.dueAt_operator] at hdueNow
            simp [hdueNow, Pending.fold?]
          | paren offset => simp [Pending.fold?]

theorem foldsAt_eq_nil {t : Token} (h : ∀ op : Operator, op.dueAt t = false)
    (before : List Token) : foldsAt before t = [] := by
  rw [foldsAt_eq]
  cases waiting before with
  | nil => rfl
  | cons p below =>
    have hp : ¬ p.foldedAt t = true := by
      cases p <;> simp [Pending.foldedAt, h]
    rw [List.takeWhile_cons_of_neg hp]
    rfl

/-- The folds due at no token are those of the operators that still wait. -/
theorem foldsAtEnd_eq (tokens : List Token) :
    foldsAtEnd tokens = (waiting tokens).filterMap Pending.fold? := by
  induction tokens with
  | nil => rfl
  | cons t behind ih =>
    rw [foldsAtEnd] at ih
    rw [foldsAtEnd, foldsWhere_cons, ih]
    cases hentry : t.entry? with
    | none => rw [waiting_cons_of_none hentry, List.append_nil]
    | some p =>
      by_cases hdue : firstInGroup? p.dueAt 0 behind = none
      · rw [waiting_cons_of_not_due hentry hdue, List.filterMap_append]
        cases p with
        | operator op offset =>
          rw [Pending.dueAt_operator] at hdue
          simp [hdue, Pending.fold?]
        | paren offset => rfl
      · rw [waiting_cons_of_due hentry hdue]
        cases p with
        | operator op offset =>
          rw [Pending.dueAt_operator] at hdue
          simp [hdue]
        | paren offset => simp

/-- The last open parenthesis waits below what waits of the tokens behind it. -/
theorem lastOpen?_cases (tokens : List Token) :
    (lastOpen? tokens = none ∧ ∀ p ∈ waiting tokens, p.isParen = false) ∨
    ∃ paren behind below, lastOpen? tokens = some (paren, behind) ∧
      waiting tokens = waiting behind ++ .paren paren.offset :: below ∧
      ∀ p ∈ waiting behind, p.isParen = false := by
  induction tokens with
  | nil =>
    refine .inl ⟨rfl, ?_⟩
    intro p hp
    cases hp
  | cons t ts ih =>
    obtain ⟨hnone, hall⟩ | ⟨paren, behind, below, hsome, hwaiting, hall⟩ := ih
    · by_cases hopen : t.meaning = .opening ∧ firstInGroup? Token.closes 0 ts = none
      · have hentry : t.entry? = some (.paren t.offset) := by simp [Token.entry?, hopen.1]
        refine .inr ⟨t, ts, [], ?_, waiting_cons_of_not_due hentry hopen.2, hall⟩
        rw [lastOpen?, hnone, if_pos hopen]
        rfl
      · refine .inl ⟨by rw [lastOpen?, hnone, if_neg hopen]; rfl, ?_⟩
        intro p hp
        rw [waiting, List.mem_append] at hp
        obtain hp | hp := hp
        · exact hall p hp
        · cases hm : t.meaning with
          | opening =>
            have hentry : t.entry? = some (.paren t.offset) := by simp [Token.entry?, hm]
            have hdue : ¬ firstInGroup? (Pending.paren t.offset).dueAt 0 ts = none :=
              fun hnone => hopen ⟨hm, hnone⟩
            simp [hentry, hdue] at hp
          | operator op =>
            have hentry : t.entry? = some (.operator op t.offset) := by simp [Token.entry?, hm]
            simp only [hentry] at hp
            split at hp
            · rw [List.mem_singleton.mp hp]
              rfl
            · cases hp
          | closing => simp [Token.entry?, hm] at hp
          | number value => simp [Token.entry?, hm] at hp
    · obtain ⟨entries, hentries⟩ : ∃ entries, waiting (t :: ts) = waiting ts ++ entries := ⟨_, rfl⟩
      refine .inr ⟨paren, behind, below ++ entries, by rw [lastOpen?, hsome]; rfl, ?_, hall⟩
      rw [hentries, hwaiting, List.append_assoc]
      rfl

/-- Where all operators are folded, folding stops at the last open parenthesis, if there is one. -/
theorem lastOpen?_split (folded : Pending → Bool)
    (hop : ∀ op offset, folded (.operator op offset) = true)
    (hparen : ∀ offset, folded (.paren offset) = false) (tokens : List Token) :
    (lastOpen? tokens = none ∧ (waiting tokens).takeWhile folded = waiting tokens ∧
      (waiting tokens).dropWhile folded = []) ∨
    ∃ paren behind below, lastOpen? tokens = some (paren, behind) ∧
      (waiting tokens).takeWhile folded = waiting behind ∧
      (waiting tokens).dropWhile folded = .paren paren.offset :: below := by
  have hfolded : ∀ p : Pending, p.isParen = false → folded p = true := by
    intro p hp
    cases p with
    | operator op offset => exact hop op offset
    | paren offset => cases hp
  obtain ⟨hnone, hall⟩ | ⟨paren, behind, below, hsome, hwaiting, hall⟩ := lastOpen?_cases tokens
  · have hops : ∀ p ∈ waiting tokens, folded p = true := by
      intro p hp
      exact hfolded p (hall p hp)
    exact .inl ⟨hnone, List.takeWhile_eq_self_iff.mpr hops, List.dropWhile_eq_nil_iff.mpr hops⟩
  · have hops : ∀ p ∈ waiting behind, folded p = true := by
      intro p hp
      exact hfolded p (hall p hp)
    have hneg : ¬ folded (.paren paren.offset) = true := by simp [hparen]
    refine .inr ⟨paren, behind, below, hsome, ?_, ?_⟩
    · rw [hwaiting, List.takeWhile_append_of_pos hops, List.takeWhile_cons_of_neg hneg,
        List.append_nil]
    · rw [hwaiting, List.dropWhile_append_of_pos hops, List.dropWhile_cons_of_neg hneg]

end ExactCalculator
