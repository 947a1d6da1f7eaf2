import ExactCalculator.Proofs.Substitution
import ExactCalculator.Run.Record

/-!
Spaces mean nothing. A run depends on the items of a text and on nothing else, and their offsets
decide nothing: where two texts have the same tokens and faults in the same order, they have the
same answer and the same folds, and their faults blame the same items (`Likeness.together`). Spaces
that break no run of digits and points in two change no item (`Text.items_spaces`).
-/
namespace ExactCalculator

/-- The same token, or a fault of the same kind, with the same characters. -/
def Item.Agrees (i j : Item) : Prop :=
  i.text = j.text ∧
    match i.token, j.token with
    | .ok t, .ok u => t.meaning = u.meaning
    | .error f, .error g => f.kind = g.kind
    | _, _ => False

def Outcome.trace (o : Outcome) : List String := o.folds.map fun f => (Record.fold f).render

namespace Item

/-- A mark is no number, and if it is not a token, then a character that means nothing. -/
theorem token_mark_cases (c : Char) (offset : Nat) :
    (∃ m, (Item.mk (.mark c) offset).token = .ok ⟨m, [c], offset⟩ ∧ ∀ v, m ≠ .number v) ∨
    ∃ span, (Item.mk (.mark c) offset).token = .error ⟨.invalidCharacter c, span⟩ := by
  obtain ⟨w, value, hl, -⟩ | hl | hl | ⟨op, hl⟩ | ⟨cause, hcause⟩ := (Lexeme.mark c).sorts
  · cases hl
  · cases hl
    exact .inl ⟨.opening, rfl, fun _ => Meaning.noConfusion⟩
  · cases hl
    exact .inl ⟨.closing, rfl, fun _ => Meaning.noConfusion⟩
  · cases hl
    exact .inl ⟨.operator op, token_symbol op offset, fun _ => Meaning.noConfusion⟩
  · obtain ⟨d, hd, -, rfl⟩ | ⟨w, reason, hw, -⟩ := Lexeme.meaning_eq_error hcause
    · cases hd
      exact .inr ⟨_, token_of_error hcause offset⟩
    · cases hw

/-- A run is a number or a malformed literal. -/
theorem token_run_cases (w : Text) (offset : Nat) :
    (∃ v, (Item.mk (.run w) offset).token = .ok ⟨.number v, w, offset⟩) ∨
    ∃ reason span, (Item.mk (.run w) offset).token = .error ⟨.malformedLiteral w reason, span⟩ := by
  cases hw : Decimal.ofLiteral w with
  | ok v => exact .inl ⟨v, token_run hw offset⟩
  | error reason => exact .inr ⟨_, _, token_of_error (Lexeme.meaning_run_of_error hw) offset⟩

theorem not_agrees_mark_run (c : Char) (w : Text) (m n : Nat) :
    ¬ (Item.mk (.mark c) m).Agrees ⟨.run w, n⟩ := by
  rintro ⟨-, h⟩
  obtain ⟨meaning, hm, hnumber⟩ | ⟨span, hm⟩ := token_mark_cases c m
  · obtain ⟨v, hn⟩ | ⟨reason, span, hn⟩ := token_run_cases w n
    · rw [hm, hn] at h
      exact hnumber v h
    · rw [hm, hn] at h
      exact h
  · obtain ⟨v, hn⟩ | ⟨reason, span', hn⟩ := token_run_cases w n
    · rw [hm, hn] at h
      exact h
    · rw [hm, hn] at h
      cases h

theorem Agrees.symm {i j : Item} (h : i.Agrees j) : j.Agrees i := by
  obtain ⟨htext, h⟩ := h
  refine ⟨htext.symm, ?_⟩
  revert h
  cases i.token with
  | ok t =>
    cases j.token with
    | ok u => exact Eq.symm
    | error g => exact id
  | error f =>
    cases j.token with
    | ok u => exact id
    | error g => exact Eq.symm

/-- To agree is to be one lexeme, wherever it stands. -/
theorem agrees_iff (i j : Item) : i.Agrees j ↔ i.lexeme = j.lexeme := by
  obtain ⟨l, m⟩ := i
  obtain ⟨l', n⟩ := j
  constructor
  · intro h
    cases l with
    | mark c =>
      cases l' with
      | mark d =>
        have htext : [c] = [d] := h.1
        cases htext
        rfl
      | run w => exact absurd h (not_agrees_mark_run c w m n)
    | run w =>
      cases l' with
      | mark d => exact absurd h.symm (not_agrees_mark_run d w n m)
      | run w' => exact congrArg Lexeme.run h.1
  · rintro (rfl : l = l')
    refine ⟨rfl, ?_⟩
    cases hl : l.meaning with
    | ok meaning => simp only [token, hl]
    | error cause =>
      simp only [token, hl]
      rfl

end Item

/-- The lexemes of two lists decide whether they agree item by item. -/
theorem forall₂_agrees_of_map_eq {items others : List Item}
    (h : items.map Item.lexeme = others.map Item.lexeme) :
    List.Forall₂ Item.Agrees items others := by
  have hmap : List.Forall₂ Eq (items.map Item.lexeme) (others.map Item.lexeme) := by
    rw [List.forall₂_eq_eq_eq]
    exact h
  rw [List.forall₂_map_left_iff, List.forall₂_map_right_iff] at hmap
  exact hmap.imp fun i j hij => (Item.agrees_iff i j).mpr hij

def Together (edge : Span → Nat) (items others : List Item) (m n : Nat) : Prop :=
  ∃ (k : Nat) (i j : Item), items[k]? = some i ∧ others[k]? = some j ∧
    m = edge i.span ∧ n = edge j.span

namespace Likeness

/-- Runs over two lists of items, compared item by item. -/
def together (items others : List Item) : Likeness :=
  exact (Together Span.start items others) (Together Span.stop items others)

/-- Items that agree stand at corresponding places. -/
theorem items_together {items others : List Item} (h : List.Forall₂ Item.Agrees items others) :
    List.Forall₂ (together items others).Items items others := by
  obtain ⟨hlength, hagree⟩ := List.forall₂_iff_get.mp h
  refine List.forall₂_iff_get.mpr ⟨hlength, ?_⟩
  intro k hk hk'
  have hi : items[k]? = some (items.get ⟨k, hk⟩) := List.getElem?_eq_getElem hk
  have hj : others[k]? = some (others.get ⟨k, hk'⟩) := List.getElem?_eq_getElem hk'
  exact ⟨(Item.agrees_iff _ _).mp (hagree k hk hk'), ⟨k, _, _, hi, hj, rfl, rfl⟩,
    ⟨k, _, _, hi, hj, rfl, rfl⟩⟩

variable {L : Likeness}

/-- Two texts are read and folded alike when their items are. -/
theorem run_alike {t u : Text} (h : List.Forall₂ L.Items t.items u.items) (hnil : L.folds [] []) :
    ExceptRelated L.Halts L.Benches (t.state >>= State.finish) (u.state >>= State.finish) :=
  (readAll_alike h (s := .start) (t := .start) ⟨.nil, .nil, hnil⟩).bind
    fun _ _ hst => finish_alike hst

/-- What is noted in two alike runs. -/
theorem foldsOf_alike {start stop : Nat → Nat → Prop} {r r' : Except Halt Bench}
    (h : ExceptRelated (exact start stop).Halts (exact start stop).Benches r r') :
    List.Forall₂ SameFold (foldsOf r) (foldsOf r') := by
  cases h with
  | ok h => exact List.forall₂_reverse_iff.mpr h.folds
  | error h => exact List.forall₂_reverse_iff.mpr h.2

/-- The same operator on the same operands is noted in the same words. -/
theorem SameFold.render_eq {f g : Fold} (h : SameFold f g) :
    (Record.fold f).render = (Record.fold g).render := by
  dsimp only [Record.render]
  rw [h.op, h.left, h.right]

theorem trace_eq_of_sameFold {fs gs : List Fold} (h : List.Forall₂ SameFold fs gs) :
    (fs.map fun f => (Record.fold f).render) = gs.map fun g => (Record.fold g).render := by
  induction h with
  | nil => rfl
  | cons hfg _ ih => exact congrArg₂ List.cons hfg.render_eq ih

end Likeness

/-- Where a fault that is not about the whole text begins and ends, the other one does. -/
def Fault.Corresponds (t u : Text) (f g : Fault) : Prop :=
  Together Span.start t.items u.items f.span.start g.span.start ∧
    Together Span.stop t.items u.items f.span.stop g.span.stop

namespace Text

/-- Spaces at a seam change no lexeme. -/
theorem items_spaces {s u : Text} (h : Seam s u) (n : Nat) :
    (s ++ (List.replicate n ' ' ++ u)).items.map Item.lexeme =
      (s ++ u).items.map Item.lexeme := by
  have hspaces : ∀ m offset, itemsAt offset (List.replicate m ' ' ++ u) =
      itemsAt (offset + m) u := by
    intro m
    induction m with
    | zero =>
      intro offset
      rfl
    | succ m ih =>
      intro offset
      rw [List.replicate_succ, List.cons_append, itemsAt_space, ih]
      congr 1
      omega
  have hseam : Seam s (List.replicate n ' ' ++ u) := by
    cases n with
    | zero => exact h
    | succ n =>
      refine .inr fun c hc => ?_
      cases hc
      decide
  rw [items_eq_itemsAt, items_eq_itemsAt, itemsAt_append hseam, itemsAt_append h, hspaces,
    itemsAt_eq_map u, itemsAt_eq_map u (0 + byteLength s)]
  simp only [List.map_append, List.map_map]
  rfl

end Text

section Together

variable {t u : Text} (h : List.Forall₂ Item.Agrees t.items u.items)
include h

theorem outcomes_together : (Likeness.together t.items u.items).Outcomes (Text.byteLength t)
    (Text.byteLength u) (evaluate t) (evaluate u) := by
  rw [evaluate_eq, evaluate_eq]
  exact Likeness.resultOf_alike (Likeness.run_alike (Likeness.items_together h) .nil) _ _

theorem trace_together : t.run.trace = u.run.trace := by
  rw [Outcome.trace, Outcome.trace, Text.folds_run_eq, Text.folds_run_eq]
  exact Likeness.trace_eq_of_sameFold
    (Likeness.foldsOf_alike (Likeness.run_alike (Likeness.items_together h) .nil))

/-- Only where nothing is found the whole text is blamed instead of items. -/
theorem corresponds_together {f g : Fault} (hf : evaluate t = .error f)
    (hg : evaluate u = .error g) (hkind : f.kind ≠ .emptyExpression) : f.Corresponds t u g := by
  have houtcomes := outcomes_together h
  rw [hf, hg] at houtcomes
  cases houtcomes with
  | error hfaults =>
    obtain ⟨-, hspans⟩ | ⟨rfl, -⟩ := hfaults
    · exact hspans
    · exact absurd rfl hkind

end Together

/-- Two texts with the same tokens and faults in the same order have the same value, or the same
fault at the same items, and the same trace. So spaces can come and go wherever they do not stand
in a run of digits and points or between two of them. -/
theorem evaluate_respaced :
    (∀ t u : Text, List.Forall₂ Item.Agrees t.items u.items →
      SameAnswer (evaluate t) (evaluate u) ∧ t.run.trace = u.run.trace ∧
      ∀ f g, evaluate t = .error f → evaluate u = .error g → f.kind ≠ .emptyExpression →
        f.Corresponds t u g) ∧
    ∀ (s u : Text) (n : Nat), Text.Seam s u →
      SameAnswer (evaluate (s ++ (List.replicate n ' ' ++ u))) (evaluate (s ++ u)) ∧
      (Text.run (s ++ (List.replicate n ' ' ++ u))).trace = (Text.run (s ++ u)).trace := by
  constructor
  · intro t u h
    exact ⟨(outcomes_together h).sameAnswer, trace_together h,
      fun f g hf hg => corresponds_together h hf hg⟩
  · intro s u n h
    have hagree := forall₂_agrees_of_map_eq (Text.items_spaces h n)
    exact ⟨(outcomes_together hagree).sameAnswer, trace_together hagree⟩

/-- In `7/(1-1)` and `7 /(1 -1)` the same literals are blamed, and one of two spaces can go, but not
both, from between two numbers. -/
theorem evaluate_respaced_instances :
    Fault.Corresponds ['7', '/', '(', '1', '-', '1', ')']
      ['7', ' ', '/', '(', '1', ' ', '-', '1', ')']
      ⟨.divisionByZero, ⟨3, 6⟩⟩ ⟨.divisionByZero, ⟨4, 8⟩⟩ ∧
    SameAnswer (evaluate ['2', ' ', ' ', '3', '*']) (evaluate ['2', ' ', '3', '*']) := by
  constructor
  · have hitems : List.Forall₂ Item.Agrees (Text.items ['7', '/', '(', '1', '-', '1', ')'])
        (Text.items ['7', ' ', '/', '(', '1', ' ', '-', '1', ')']) :=
      forall₂_agrees_of_map_eq (by decide +kernel)
    exact (evaluate_respaced.1 _ _ hitems).2.2 _ _ (by decide +kernel) (by decide +kernel)
      FaultKind.noConfusion
  · have hseam : Text.Seam ['2', ' '] ['3', '*'] := by
      refine .inl fun c hc => ?_
      cases hc
      decide
    exact (evaluate_respaced.2 _ _ 1 hseam).1

end ExactCalculator
