import ExactCalculator.Proofs.Decimal.Written
import ExactCalculator.Proofs.Run.Ending
import ExactCalculator.Proofs.Run.Tally
import Mathlib.Data.List.Chain

/-!
What waits in a run. From the bottom up the entries are tokens in the order in which they were read:
the opening parentheses that have no partner yet, and the operators that were not applied yet. Since
an operator first folds all that bind at least as tightly, those of one group bind the tighter the
later they came, so there are never more than two (`length_le_of_isChain`). The main statement
(`pending_orderly`) says this of whatever was read without a fault.
-/
namespace ExactCalculator

/-- The characters of some items, without what stands between them. -/
def Text.ofItems (items : List Item) : Text := items.flatMap Item.text

@[simp] theorem Text.ofItems_nil : Text.ofItems [] = [] := rfl
@[simp] theorem Text.ofItems_append (items more : List Item) :
    ofItems (items ++ more) = ofItems items ++ ofItems more := List.flatMap_append
@[simp] theorem Text.ofItems_singleton (i : Item) : ofItems [i] = i.text :=
  List.flatMap_singleton _ _

theorem Text.ofItems_opening (items : List Item) (offset : Nat) :
    ofItems (⟨.mark '(', offset⟩ :: items) = '(' :: ofItems items := rfl

/-- The offsets of the opening parentheses among some items that have no partner, the latest first;
before, between and behind them all parentheses are paired. -/
inductive Unpaired : List Item → List Nat → Prop
  | none {items : List Item} (h : (Text.ofItems items).Balanced) : Unpaired items []
  | opening {items inside : List Item} {offsets : List Nat} (h : Unpaired items offsets)
    (offset : Nat) (hinside : (Text.ofItems inside).Balanced) :
    Unpaired (items ++ ⟨.mark '(', offset⟩ :: inside) (offset :: offsets)

namespace Unpaired

variable {items more : List Item} {offset : Nat} {offsets : List Nat}

theorem append (h : Unpaired items offsets) (hmore : (Text.ofItems more).Balanced) :
    Unpaired (items ++ more) offsets := by
  cases h with
  | none h => exact .none (by rw [Text.ofItems_append]; exact h.append hmore)
  | opening h offset hinside =>
    rw [List.append_assoc, List.cons_append]
    exact .opening h offset (by rw [Text.ofItems_append]; exact hinside.append hmore)

/-- A closing parenthesis is the partner of the latest one that has none. -/
theorem close (h : Unpaired items (offset :: offsets)) (close : Nat) :
    Unpaired (items ++ [⟨.mark ')', close⟩]) offsets := by
  cases h with
  | opening h offset hinside =>
    rw [List.append_assoc, List.cons_append]
    refine h.append ?_
    rw [Text.ofItems_opening, Text.ofItems_append]
    exact hinside.enclosed

/-- These are the offsets of the parentheses without a partner, and no others. -/
theorem mem_iff (h : Unpaired items offsets) (m : Nat) :
    m ∈ offsets ↔ ∃ before behind, items = before ++ ⟨.mark '(', m⟩ :: behind ∧
      ¬ (Text.ofItems behind).PartnerBehind := by
  induction h with
  | none h =>
    simp only [List.not_mem_nil, false_iff]
    rintro ⟨before, behind, rfl, hpartner⟩
    rw [Text.ofItems_append, Text.ofItems_opening] at h
    exact hpartner h.partnerBehind
  | @opening items inside offsets h offset hinside ih =>
    rw [List.mem_cons, ih]
    constructor
    · rintro (rfl | ⟨before, behind, rfl, hpartner⟩)
      · exact ⟨items, inside, rfl, hinside.not_partnerBehind⟩
      · -- Nothing that came later closes what was open before.
        have hclosable := (Text.ofItems behind).partnerBehind_or.resolve_left hpartner
        refine ⟨before, behind ++ ⟨.mark '(', offset⟩ :: inside, by simp, ?_⟩
        rw [Text.ofItems_append, Text.ofItems_opening]
        exact Text.Closable.not_partnerBehind (hclosable.append hinside.closable.opening)
    · rintro ⟨before, behind, hitems, hpartner⟩
      obtain ⟨passed, rfl, hpassed⟩ | ⟨passed, rfl, hbehind⟩ := List.append_eq_append_iff.mp hitems
      · cases passed with
        | nil =>
          cases hpassed
          exact .inl rfl
        | cons i passed =>
          rw [List.cons_append, List.cons.injEq] at hpassed
          obtain ⟨-, rfl⟩ := hpassed
          rw [Text.ofItems_append, Text.ofItems_opening] at hinside
          exact absurd hinside.partnerBehind hpartner
      · cases passed with
        | nil =>
          cases hbehind
          exact .inl rfl
        | cons i passed =>
          rw [List.cons_append, List.cons.injEq] at hbehind
          obtain ⟨rfl, rfl⟩ := hbehind
          refine .inr ⟨before, passed, rfl, fun h => hpartner ?_⟩
          rw [Text.ofItems_append]
          exact h.append _

end Unpaired

namespace State

/-- What waits of the parentheses are those without a partner. -/
theorem unpaired_invariant : Invariant fun items s => Unpaired items (openings s.pending) where
  start := .none (by decide)
  number hs hvalue offset := by
    refine hs.append ?_
    rw [Text.ofItems_singleton]
    exact Text.balanced_of_numeral (Decimal.isLiteral_of_ofLiteral hvalue).numeral
  opening hs offset := hs.opening offset (by decide)
  closing hs offset := hs.close offset
  operator hs op offset := by
    refine hs.append ?_
    rw [Text.ofItems_singleton]
    exact Text.balanced_symbol op
  fold hs _ := hs

/-- From the bottom up the entries were read in their order. -/
theorem inOrder_invariant :
    Invariant fun items s => (s.pending.reverse.map Pending.item).Sublist items where
  start := .slnil
  number hs _ offset := hs.trans (List.sublist_append_left _ _)
  opening hs offset := by
    rw [List.reverse_cons, List.map_append]
    exact hs.append (.refl _)
  closing {items m s} hs offset := by
    rw [List.reverse_cons, List.map_append] at hs
    exact (List.sublist_append_left _ _).trans (hs.trans (List.sublist_append_left _ _))
  operator hs op offset := by
    rw [List.reverse_cons, List.map_append]
    exact hs.append (.refl _)
  fold hs _ := by
    rw [List.reverse_cons, List.map_append] at hs
    exact (List.sublist_append_left _ _).trans hs

end State

def Pending.Tighter : Pending → Pending → Prop
  | .operator upper _, .operator lower _ => lower.precedence < upper.precedence
  | _, _ => True

def topPrecedence : List Pending → Nat
  | .operator op _ :: _ => op.precedence
  | _ => 0

theorem Operator.precedence_pos (op : Operator) : 0 < op.precedence := by cases op <;> decide

theorem topPrecedence_le (pending : List Pending) : topPrecedence pending ≤ 2 := by
  unfold topPrecedence
  split
  next op _ _ => cases op <;> decide
  next => exact Nat.zero_le 2

/-- Every group adds its parenthesis and at most two operators, as there are two precedences. -/
theorem length_le_of_isChain {pending : List Pending} (h : pending.IsChain Pending.Tighter) :
    pending.length ≤ 3 * (openings pending).length + topPrecedence pending := by
  induction pending with
  | nil => exact Nat.zero_le _
  | cons p below ih =>
    obtain ⟨hp, hbelow⟩ := List.isChain_cons.mp h
    have hlength := ih hbelow
    cases p with
    | paren offset =>
      have := topPrecedence_le below
      simp only [List.length_cons, openings_paren, topPrecedence]
      omega
    | operator op offset =>
      have htop : topPrecedence below < op.precedence := by
        cases below with
        | nil => exact op.precedence_pos
        | cons q rest =>
          cases q with
          | paren offset => exact op.precedence_pos
          | operator lower offset => exact hp _ rfl
      simp only [List.length_cons, openings_operator]
      change below.length + 1 ≤ _ + op.precedence
      omega

namespace State

theorem isChain_unwind {among : Operator → Bool} {pending : List Pending} {b : Bench} {s : State}
    (hpending : pending.IsChain Pending.Tighter) (h : unwind among pending b = .ok s) :
    s.pending.IsChain Pending.Tighter :=
  unwind_invariant (motive := fun s => s.pending.IsChain Pending.Tighter)
    (fun _ _ _ _ _ hs _ => hs.tail) hpending h

/-- An operator lets only those wait below it in its group that bind less tightly. -/
theorem isChain_read {s after : State} {i : Item} (hs : s.pending.IsChain Pending.Tighter)
    (h : s.read i = .ok after) : after.pending.IsChain Pending.Tighter := by
  obtain ⟨l, offset⟩ := i
  obtain ⟨w, value, rfl, hvalue⟩ | rfl | rfl | ⟨op, rfl⟩ | ⟨cause, hcause⟩ := l.sorts
  · rw [read_run hvalue] at h
    cases h
    exact hs
  · rw [read_opening] at h
    cases h
    exact List.isChain_cons.mpr ⟨fun _ _ => trivial, hs⟩
  · rw [read_closing] at h
    obtain ⟨ended, hend, hdrop⟩ := bind_eq_ok.mp h
    obtain ⟨m, rfl⟩ := dropParen_eq_ok hdrop
    exact (isChain_unwind hs hend).tail
  · rw [read_symbol] at h
    obtain ⟨given, hgive, hpush⟩ := bind_eq_ok.mp h
    cases hpush
    refine List.isChain_cons.mpr ⟨fun p hp => ?_, isChain_unwind hs hgive⟩
    cases p with
    | paren offset => trivial
    | operator lower offset =>
      obtain ⟨below, hgiven⟩ := List.head?_eq_some_iff.mp hp
      have hnot := pending_of_unwind hgive lower offset below hgiven
      simpa [Pending.Tighter] using hnot
  · rw [read_of_error hcause] at h
    cases h

/-- The chain holds through a whole run. -/
theorem isChain_readAll {items : List Item} {s after : State}
    (hs : s.pending.IsChain Pending.Tighter) (h : s.readAll items = .ok after) :
    after.pending.IsChain Pending.Tighter := by
  induction items generalizing s with
  | nil =>
    cases h
    exact hs
  | cons i items ih =>
    rw [readAll_cons] at h
    obtain ⟨next, hread, hrest⟩ := bind_eq_ok.mp h
    exact ih (isChain_read hs hread) hrest

end State

theorem mem_openings_iff {pending : List Pending} {m : Nat} :
    m ∈ openings pending ↔ .paren m ∈ pending := by
  induction pending with
  | nil => simp
  | cons p below ih => cases p <;> simp [ih]

theorem Operator.symbol_injective : Function.Injective symbol := by
  intro op op' h
  have hop := ofSymbol?_symbol op
  rw [h, ofSymbol?_symbol op'] at hop
  exact (Option.some.inj hop).symm

theorem mem_waitingOperators_iff {pending : List Pending} {op : Operator} {m : Nat} :
    ⟨.mark op.symbol, m⟩ ∈ waitingOperators pending ↔ .operator op m ∈ pending := by
  induction pending with
  | nil => simp
  | cons p below ih => cases p <;> simp [ih, Operator.symbol_injective.eq_iff]

/-- Where no item stands twice, the operators that wait are those that were read and not applied. -/
theorem State.Tallies.waits_iff {items : List Item} {s : State} (hs : s.Tallies items)
    (hitems : items.Nodup) (op : Operator) (m : Nat) :
    .operator op m ∈ s.pending ↔
      ⟨.mark op.symbol, m⟩ ∈ items ∧ ⟨.mark op.symbol, m⟩ ∉ s.bench.folds.map Fold.item := by
  have hnodup := hs.operators.nodup_iff.mpr (hitems.filter _)
  have hmem := hs.operators.mem_iff (a := ⟨.mark op.symbol, m⟩)
  rw [List.mem_append, List.mem_filter, Item.isOperator_symbol] at hmem
  rw [← mem_waitingOperators_iff]
  constructor
  · intro hwaits
    refine ⟨(hmem.mp (.inr hwaits)).1, fun hdone => ?_⟩
    exact (List.nodup_append.mp hnodup).2.2 _ hdone _ hwaits rfl
  · rintro ⟨hread, hnot⟩
    exact (hmem.mpr ⟨hread, rfl⟩).resolve_left hnot

structure State.Orderly (items : List Item) (s : State) : Prop where
  /-- From the bottom up the entries are tokens that were read, in reading order. -/
  inOrder : (s.pending.reverse.map Pending.item).Sublist items
  ascending : (s.pending.reverse.map Pending.offset).Pairwise (· < ·)
  /-- The parentheses are those without a partner among the items behind them. -/
  paren : ∀ m, .paren m ∈ s.pending ↔ ∃ before behind, items = before ++ ⟨.mark '(', m⟩ :: behind ∧
    ¬ (Text.ofItems behind).PartnerBehind
  /-- The operators are those that were not applied. -/
  operator : ∀ op m, .operator op m ∈ s.pending ↔
    ⟨.mark op.symbol, m⟩ ∈ items ∧ ⟨.mark op.symbol, m⟩ ∉ s.bench.folds.map Fold.item
  /-- Operators on top of each other, the upper ones first, bind less and less tightly. -/
  group : ∀ upper (ops : List (Operator × Nat)) lower,
    s.pending = upper ++ (ops.map fun o => .operator o.1 o.2) ++ lower →
      (ops.map fun o => o.1.precedence).Pairwise (· > ·) ∧ ops.length ≤ 2
  length : s.pending.length ≤ 3 * (openings s.pending).length + 2

theorem openings_operators (ops : List (Operator × Nat)) :
    openings (ops.map fun o => .operator o.1 o.2) = [] := by
  induction ops with
  | nil => rfl
  | cons o ops ih => exact ih

/-- Operators on top of each other are part of the chain. -/
theorem group_of_isChain {pending : List Pending} (h : pending.IsChain Pending.Tighter)
    {upper lower : List Pending} {ops : List (Operator × Nat)}
    (hpending : pending = upper ++ (ops.map fun o => .operator o.1 o.2) ++ lower) :
    (ops.map fun o => o.1.precedence).Pairwise (· > ·) ∧ ops.length ≤ 2 := by
  have hops : (ops.map fun o => Pending.operator o.1 o.2).IsChain Pending.Tighter :=
    h.infix ⟨upper, lower, hpending.symm⟩
  constructor
  · have htighter : ops.IsChain fun o p => p.1.precedence < o.1.precedence :=
      (List.isChain_map _).mp hops
    have hchain : (ops.map fun o => o.1.precedence).IsChain (· > ·) :=
      (List.isChain_map _).mpr htighter
    exact hchain.pairwise
  · have hlength := length_le_of_isChain hops
    have htop := topPrecedence_le (ops.map fun o => Pending.operator o.1 o.2)
    rw [openings_operators, List.length_map, List.length_nil] at hlength
    omega

/-- Whatever is read of a text without a fault, also if faulty items are left out, the entries that
wait are in order: unpaired parentheses, and between them operators that bind the tighter the later
they came. -/
theorem State.pending_orderly {t : Text} {items : List Item} {s : State}
    (hitems : items.Sublist t.items) (h : start.readAll items = .ok s) : s.Orderly items := by
  have hchain := isChain_readAll (s := start) .nil h
  have hread := inOrder_invariant.readAll h
  refine ⟨hread, ?_, fun m => ?_, ?_, fun upper ops lower => group_of_isChain hchain, ?_⟩
  · have hoffsets := List.pairwise_map.mpr ((t.offsets_pairwise.sublist hitems).sublist hread)
    rw [List.map_map] at hoffsets
    have hitem : Item.offset ∘ Pending.item = Pending.offset := by
      funext p
      cases p <;> rfl
    rwa [hitem] at hoffsets
  · rw [← mem_openings_iff]
    exact (unpaired_invariant.readAll h).mem_iff m
  · exact (tallies_invariant.readAll h).waits_iff (hitems.nodup t.nodup_items)
  · have hlength := length_le_of_isChain hchain
    have htop := topPrecedence_le s.pending
    omega

/-- Of `1-#2*(3`, without the stray character, the parenthesis and both operators wait. -/
theorem State.pending_orderly_instances :
    ∃ s, start.readAll ((Text.items ['1', '-', '#', '2', '*', '(', '3']).filter fun i =>
        i.token.isOk) = .ok s ∧
      s.pending = [.paren 5, .operator .star 4, .operator .minus 1] ∧
      s.Orderly ((Text.items ['1', '-', '#', '2', '*', '(', '3']).filter fun i =>
        i.token.isOk) := by
  have hread : start.readAll ((Text.items ['1', '-', '#', '2', '*', '(', '3']).filter fun i =>
        i.token.isOk) = .ok ⟨[.paren 5, .operator .star 4, .operator .minus 1],
          ⟨[⟨⟨3, 0⟩, ⟨6, 7⟩⟩, ⟨⟨2, 0⟩, ⟨3, 4⟩⟩, ⟨⟨1, 0⟩, ⟨0, 1⟩⟩], []⟩⟩ := by
    decide +kernel
  exact ⟨_, hread, rfl, pending_orderly List.filter_sublist hread⟩

end ExactCalculator
