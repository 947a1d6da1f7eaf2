import ExactCalculator.Proofs.Decimal.Nearest
import ExactCalculator.Proofs.Decimal.NormalForm
import ExactCalculator.Proofs.Run.Steps
import Mathlib.Data.List.Forall2

/-!
Two runs side by side. What counts as alike is a parameter: values that arithmetic does not tell
apart, positions at which things begin and positions at which they end, and the folds noted so far.
Alike states that read alike items stay alike or halt with alike faults (`readAll_alike`), and what
they come to at the end is one value or one complaint (`resultOf_alike`).
-/
namespace ExactCalculator

inductive ExceptRelated {ε ε' α β : Type} (E : ε → ε' → Prop) (R : α → β → Prop) :
    Except ε α → Except ε' β → Prop
  | ok {a : α} {b : β} (h : R a b) : ExceptRelated E R (.ok a) (.ok b)
  | error {e : ε} {f : ε'} (h : E e f) : ExceptRelated E R (.error e) (.error f)

theorem ExceptRelated.bind {ε ε' α β γ δ : Type} {E : ε → ε' → Prop} {R : α → β → Prop}
    {S : γ → δ → Prop} {x : Except ε α} {y : Except ε' β} {f : α → Except ε γ}
    {g : β → Except ε' δ} (h : ExceptRelated E R x y)
    (hnext : ∀ a b, R a b → ExceptRelated E S (f a) (g b)) :
    ExceptRelated E S (x >>= f) (y >>= g) := by
  cases h with
  | ok h => exact hnext _ _ h
  | error h => exact .error h

structure Likeness where
  value : Decimal → Decimal → Prop
  /-- Positions at which something begins. -/
  start : Nat → Nat → Prop
  /-- Positions at which something ends. -/
  stop : Nat → Nat → Prop
  /-- The folds noted so far. -/
  folds : List Fold → List Fold → Prop
  refl : ∀ a, value a a
  apply : ∀ (op : Operator) a a' b b', value a a' → value b b' →
    ExceptRelated Eq value (op.apply a b) (op.apply a' b')
  normalized : ∀ a a', value a a' → a.normalized = a'.normalized
  cons : ∀ (op : Operator) (m n : Nat) (x x' y y' : Operand) (fs gs : List Fold),
    value x.value x'.value → value y.value y'.value → folds fs gs →
    folds (⟨op, m, x, y⟩ :: fs) (⟨op, n, x', y'⟩ :: gs)

/-- The same value computed from the same text further on. -/
def Operand.shift (x : Operand) (bytes : Nat) : Operand := ⟨x.value, x.span.shift bytes⟩

@[simp] theorem Operand.value_shift (x : Operand) (bytes : Nat) :
    (x.shift bytes).value = x.value := rfl
@[simp] theorem Operand.span_shift (x : Operand) (bytes : Nat) :
    (x.shift bytes).span = x.span.shift bytes := rfl

namespace Likeness

section Relations

variable (L : Likeness)

def Spans (s t : Span) : Prop := L.start s.start t.start ∧ L.stop s.stop t.stop

def Operands (x y : Operand) : Prop := L.value x.value y.value ∧ L.Spans x.span y.span

def Faults (f g : Fault) : Prop := f.cause = g.cause ∧ L.Spans f.span g.span

structure Benches (b c : Bench) : Prop where
  operands : List.Forall₂ L.Operands b.operands c.operands
  folds : L.folds b.folds c.folds

inductive Entries : Pending → Pending → Prop
  | paren {m n : Nat} (h : L.Spans (.single m) (.single n)) : Entries (.paren m) (.paren n)
  | operator {op : Operator} {m n : Nat} (h : L.Spans (.single m) (.single n)) :
    Entries (.operator op m) (.operator op n)

structure States (s t : State) : Prop where
  pending : List.Forall₂ L.Entries s.pending t.pending
  bench : L.Benches s.bench t.bench

def Halts (h k : Halt) : Prop := L.Faults h.fault k.fault ∧ L.folds h.folds k.folds

def Items (i j : Item) : Prop := i.lexeme = j.lexeme ∧ L.Spans i.span j.span

/-- What two texts of so many bytes come to: the same value, or the same complaint. -/
def Outcomes (m n : Nat) : Except Fault Decimal → Except Fault Decimal → Prop :=
  ExceptRelated (fun f g => L.Faults f g ∨
    f = ⟨.emptyExpression, ⟨0, m⟩⟩ ∧ g = ⟨.emptyExpression, ⟨0, n⟩⟩) Eq

end Relations

variable {L : Likeness}

/-- The same two operands are missing, or the results are alike. -/
theorem fold_alike {b c : Bench} (h : L.Benches b c) (op : Operator) {m n : Nat}
    (hmn : L.Spans (.single m) (.single n)) :
    ExceptRelated L.Halts L.Benches (b.fold op m) (c.fold op n) := by
  obtain ⟨xs, fs⟩ := b
  obtain ⟨ys, gs⟩ := c
  obtain ⟨hoperands, hfolds⟩ := h
  cases hoperands with
  | nil => exact .error ⟨⟨rfl, hmn⟩, hfolds⟩
  | @cons y y' _ _ hright hrest =>
    cases hrest with
    | nil => exact .error ⟨⟨rfl, hmn⟩, hfolds⟩
    | @cons x x' _ _ hleft hbelow =>
      have happly := L.apply op _ _ _ _ hleft.1 hright.1
      have hnoted := L.cons op m n x x' y y' fs gs hleft.1 hright.1 hfolds
      generalize hv : op.apply x.value y.value = r at happly
      generalize hv' : op.apply x'.value y'.value = r' at happly
      cases happly with
      | ok hvalue =>
        rw [Bench.fold_of_apply_ok hv, Bench.fold_of_apply_ok hv']
        exact .ok ⟨.cons ⟨hvalue, hleft.2.1, hright.2.2⟩ hbelow, hnoted⟩
      | error =>
        rw [Bench.fold_of_apply_error hv, Bench.fold_of_apply_error hv']
        exact .error ⟨⟨rfl, hright.2⟩, hnoted⟩

/-- Alike stacks of what waits are unwound down to the same depth. -/
theorem unwind_alike (among : Operator → Bool) {ps qs : List Pending}
    (h : List.Forall₂ L.Entries ps qs) {b c : Bench} (hbench : L.Benches b c) :
    ExceptRelated L.Halts L.States (State.unwind among ps b) (State.unwind among qs c) := by
  induction h generalizing b c with
  | nil => exact .ok ⟨.nil, hbench⟩
  | cons hentry hrest ih =>
    cases hentry with
    | paren hmn => exact .ok ⟨.cons (.paren hmn) hrest, hbench⟩
    | @operator op m n hmn =>
      by_cases hamong : among op = true
      · rw [State.unwind_operator hamong, State.unwind_operator hamong]
        exact (fold_alike hbench op hmn).bind fun b c hbc => ih hbc
      · rw [State.unwind_operator_of_not_among (by simpa using hamong),
          State.unwind_operator_of_not_among (by simpa using hamong)]
        exact .ok ⟨.cons (.operator hmn) hrest, hbench⟩

theorem dropParen_alike {s t : State} (h : L.States s t) {m n : Nat}
    (hmn : L.Spans (.single m) (.single n)) :
    ExceptRelated L.Halts L.States (s.dropParen m) (t.dropParen n) := by
  obtain ⟨ps, b⟩ := s
  obtain ⟨qs, c⟩ := t
  obtain ⟨hpending, hbench⟩ := h
  cases hpending with
  | nil => exact .error ⟨⟨rfl, hmn⟩, hbench.folds⟩
  | cons hentry hrest =>
    cases hentry with
    | paren => exact .ok ⟨hrest, hbench⟩
    | operator => exact .error ⟨⟨rfl, hmn⟩, hbench.folds⟩

theorem allClosed_alike {s t : State} (h : L.States s t) :
    ExceptRelated L.Halts L.Benches s.allClosed t.allClosed := by
  obtain ⟨ps, b⟩ := s
  obtain ⟨qs, c⟩ := t
  obtain ⟨hpending, hbench⟩ := h
  cases hpending with
  | nil => exact .ok hbench
  | cons hentry hrest =>
    cases hentry with
    | paren hmn => exact .error ⟨⟨rfl, hmn⟩, hbench.folds⟩
    | operator hmn => exact .error ⟨⟨rfl, hmn⟩, hbench.folds⟩

/-- One item on both sides. -/
theorem read_alike {s s' : State} (h : L.States s s') {i j : Item} (hij : L.Items i j) :
    ExceptRelated L.Halts L.States (s.read i) (s'.read j) := by
  obtain ⟨l, m⟩ := i
  obtain ⟨l', n⟩ := j
  obtain ⟨rfl, hspan⟩ := hij
  obtain ⟨w, value, rfl, hvalue⟩ | rfl | rfl | ⟨op, rfl⟩ | ⟨cause, hcause⟩ := l.sorts
  · rw [State.read_run hvalue, State.read_run hvalue]
    exact .ok ⟨h.pending, .cons ⟨L.refl value, hspan⟩ h.bench.operands, h.bench.folds⟩
  · rw [State.read_opening, State.read_opening]
    rw [Item.span_opening, Item.span_opening] at hspan
    exact .ok ⟨.cons (.paren hspan) h.pending, h.bench⟩
  · rw [State.read_closing, State.read_closing]
    rw [Item.span_closing, Item.span_closing] at hspan
    exact (unwind_alike _ h.pending h.bench).bind fun s s' h => dropParen_alike h hspan
  · rw [State.read_symbol, State.read_symbol]
    rw [Item.span_symbol, Item.span_symbol] at hspan
    refine (unwind_alike _ h.pending h.bench).bind ?_
    intro s s' h
    exact .ok ⟨.cons (.operator hspan) h.pending, h.bench⟩
  · rw [State.read_of_error hcause, State.read_of_error hcause]
    exact .error ⟨⟨rfl, hspan⟩, h.bench.folds⟩

/-- Any number of items on both sides. -/
theorem readAll_alike {items others : List Item} (h : List.Forall₂ L.Items items others)
    {s t : State} (hst : L.States s t) :
    ExceptRelated L.Halts L.States (s.readAll items) (t.readAll others) := by
  induction h generalizing s t with
  | nil => exact .ok hst
  | cons hij hrest ih =>
    rw [State.readAll_cons, State.readAll_cons]
    exact (read_alike hst hij).bind fun s t hst => ih hst

theorem finish_alike {s t : State} (h : L.States s t) :
    ExceptRelated L.Halts L.Benches s.finish t.finish := by
  rw [State.finish_eq, State.finish_eq]
  exact (unwind_alike _ h.pending h.bench).bind fun s t h => allClosed_alike h

/-- What is left on alike benches. -/
theorem result_alike {b c : Bench} (h : L.Benches b c) (m n : Nat) :
    L.Outcomes m n (b.result m) (c.result n) := by
  have hoperands := List.forall₂_reverse_iff.mpr h.operands
  unfold Bench.result
  generalize b.operands.reverse = xs at hoperands
  generalize c.operands.reverse = ys at hoperands
  cases hoperands with
  | nil => exact .error (.inr ⟨rfl, rfl⟩)
  | cons hbottom hrest =>
    cases hrest with
    | nil => exact .ok (L.normalized _ _ hbottom.1)
    | cons hextra hrest => exact .error (.inl ⟨rfl, hextra.2⟩)

/-- What two alike runs come to. -/
theorem resultOf_alike {r r' : Except Halt Bench} (h : ExceptRelated L.Halts L.Benches r r')
    (m n : Nat) : L.Outcomes m n (resultOf m r) (resultOf n r') := by
  cases h with
  | ok h => exact result_alike h m n
  | error h => exact .error (.inl h.1)

structure SameFold (f g : Fold) : Prop where
  op : f.op = g.op
  left : f.left.value = g.left.value
  right : f.right.value = g.right.value

/-- Runs over the same numbers at corresponding places apply the same operators to them. -/
def exact (start stop : Nat → Nat → Prop) : Likeness where
  value := Eq
  start := start
  stop := stop
  folds := List.Forall₂ SameFold
  refl _ := rfl
  apply op a a' b b' ha hb := by
    subst ha hb
    cases op.apply a b with
    | ok v => exact .ok rfl
    | error e => exact .error rfl
  normalized _ _ h := by rw [h]
  cons _ _ _ _ _ _ _ _ _ hx hy hfolds := .cons ⟨rfl, hx, hy⟩ hfolds

def shifted (bytes : Nat) : Likeness :=
  exact (fun m n => n = m + bytes) (fun m n => n = m + bytes)

theorem spans_shifted_iff {bytes : Nat} {s t : Span} :
    (shifted bytes).Spans s t ↔ t = s.shift bytes := by
  obtain ⟨start, stop⟩ := t
  simp [Spans, shifted, exact, Span.shift]

theorem operands_shifted_iff {bytes : Nat} {x y : Operand} :
    (shifted bytes).Operands x y ↔ y = x.shift bytes := by
  obtain ⟨value, span⟩ := y
  rw [Operands, spans_shifted_iff, Operand.shift, Operand.mk.injEq, eq_comm (a := value)]
  rfl

theorem items_shifted (bytes : Nat) (items : List Item) :
    List.Forall₂ (shifted bytes).Items items (items.map (Item.shift · bytes)) := by
  rw [List.forall₂_map_right_iff, List.forall₂_same]
  intro i _
  exact ⟨rfl, spans_shifted_iff.mpr (i.span_shift bytes)⟩

/-- Runs in which operands are worth the same, wherever they are from and however scaled. -/
def sameWorth : Likeness where
  value a b := a.toRat = b.toRat
  start _ _ := True
  stop _ _ := True
  folds _ _ := True
  refl _ := rfl
  apply op a a' b b' ha hb := by
    obtain ⟨hop, hzero, herror⟩ | ⟨hnot, v, hv, hworth⟩ := op.apply_cases a b
    · obtain ⟨-, -, herror'⟩ | ⟨hnot, -⟩ := op.apply_cases a' b'
      · rw [herror, herror']
        exact .error rfl
      · exact absurd ⟨hop, hb ▸ hzero⟩ hnot
    · obtain ⟨hop, hzero, -⟩ | ⟨-, w, hw, hworth'⟩ := op.apply_cases a' b'
      · exact absurd ⟨hop, hb ▸ hzero⟩ hnot
      · rw [hv, hw]
        exact .ok (by rw [hworth, hworth', ha, hb])
  normalized a a' h := (Decimal.normalized_eq_iff a a').mpr h
  cons _ _ _ _ _ _ _ _ _ _ _ _ := trivial

end Likeness
end ExactCalculator
