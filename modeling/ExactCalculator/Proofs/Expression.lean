import ExactCalculator.Proofs.Decimal.Nearest
import ExactCalculator.Proofs.Decimal.Numeral
import ExactCalculator.Proofs.Items

/-!
Infix expressions as trees, without any reading of them: what a tree is worth in exact rationals,
which of its divisions come first, and which texts spell it. A text is spelled by the grammar

* `expr = term {('+'|'-') term}`
* `term = factor {('*'|'/') factor}`
* `factor = literal | '(' expr ')'`

with any spaces between the tokens. The repetitions are read as left recursion, so a tree leans to
the left.
-/
namespace ExactCalculator

/-- A literal and an operator know the byte at which they stand. -/
inductive Expression where
  | literal (t : Text) (offset : Nat)
  | binary (op : Operator) (offset : Nat) (left right : Expression)
  deriving DecidableEq, Repr

namespace Expression

/-- From the first byte of the leftmost literal to the end of the rightmost one. -/
def span : Expression → Span
  | literal t offset => .ofText offset t
  | binary _ _ left right => left.span.join right.span

def leaves : Expression → List Item
  | literal t offset => [⟨.run t, offset⟩]
  | binary _ _ left right => left.leaves ++ right.leaves

/-- The exact value, in which only quotients are rounded. -/
def value : Expression → ℚ
  | literal t _ => t.literalValue
  | binary op _ left right => op.onRat left.value right.value

/-- The divisors of all divisions, a division after those in its operands, the left operand's
first. -/
def divisors : Expression → List Expression
  | literal _ _ => []
  | binary op _ left right =>
    left.divisors ++ right.divisors ++ if op = .slash then [right] else []

/-- The divisor of the first division by zero. -/
def zeroDivisor? (e : Expression) : Option Expression :=
  e.divisors.find? fun divisor => divisor.value = 0

theorem zeroDivisor?_eq_none_iff (e : Expression) :
    e.zeroDivisor? = none ↔ ∀ divisor ∈ e.divisors, divisor.value ≠ 0 := by
  simp [zeroDivisor?]

/-- Literals in reading order: the first begins the span and the last ends it. -/
theorem span_eq_of_leaves (e : Expression) :
    ∃ first ∈ e.leaves.head?, ∃ last ∈ e.leaves.getLast?, e.span = first.span.join last.span := by
  induction e with
  | literal t offset => exact ⟨_, rfl, _, rfl, rfl⟩
  | binary op offset left right ihl ihr =>
    obtain ⟨first, hfirst, _, _, hl⟩ := ihl
    obtain ⟨_, _, last, hlast, hr⟩ := ihr
    refine ⟨first, ?_, last, ?_, ?_⟩
    · rw [leaves, List.head?_append, Option.mem_def.mp hfirst]
      rfl
    · rw [leaves, List.getLast?_append, Option.mem_def.mp hlast]
      rfl
    · rw [span, hl, hr]
      rfl

theorem leaves_ne_nil (e : Expression) : e.leaves ≠ [] := by
  obtain ⟨first, hfirst, -⟩ := e.span_eq_of_leaves
  intro h
  rw [h] at hfirst
  cases hfirst

end Expression

inductive Level where
  | expr | term | factor
  deriving DecidableEq, Repr

/-- A text that begins at the given byte spells a tree by a rule of the grammar. -/
inductive Spelled : Level → Nat → Text → Expression → Prop
  | literal {offset : Nat} {t : Text} (ht : t.IsLiteral) :
    Spelled .factor offset t (.literal t offset)
  | group {offset : Nat} {t : Text} {e : Expression} (h : Spelled .expr (offset + 1) t e) :
    Spelled .factor offset t.group e
  | ofFactor {offset : Nat} {t : Text} {e : Expression} (h : Spelled .factor offset t e) :
    Spelled .term offset t e
  | product {offset : Nat} {s t : Text} {a b : Expression} {op : Operator}
    (hop : op = .star ∨ op = .slash) (ha : Spelled .term offset s a)
    (hb : Spelled .factor (offset + Text.byteLength s + 1) t b) :
    Spelled .term offset (s ++ op.symbol :: t) (.binary op (offset + Text.byteLength s) a b)
  | ofTerm {offset : Nat} {t : Text} {e : Expression} (h : Spelled .term offset t e) :
    Spelled .expr offset t e
  | sum {offset : Nat} {s t : Text} {a b : Expression} {op : Operator}
    (hop : op = .plus ∨ op = .minus) (ha : Spelled .expr offset s a)
    (hb : Spelled .term (offset + Text.byteLength s + 1) t b) :
    Spelled .expr offset (s ++ op.symbol :: t) (.binary op (offset + Text.byteLength s) a b)
  | spaceBefore {level : Level} {offset : Nat} {t : Text} {e : Expression}
    (h : Spelled level (offset + 1) t e) : Spelled level offset (' ' :: t) e
  | spaceAfter {level : Level} {offset : Nat} {t : Text} {e : Expression}
    (h : Spelled level offset t e) : Spelled level offset (t ++ [' ']) e

end ExactCalculator
