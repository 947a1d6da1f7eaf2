import ExactCalculator.Text.Basic

/-!
Ranges of a text, from one byte position up to another. Two ranges join to the one that begins
with the first and ends with the second, whatever lies between them.
-/
namespace ExactCalculator

structure Span where
  start : Nat
  stop : Nat
  deriving DecidableEq, Repr

namespace Span

def length (s : Span) : Nat := s.stop - s.start

/-- The range of a text that begins at the given position. -/
def ofText (start : Nat) (t : Text) : Span := ⟨start, start + Text.byteLength t⟩

def single (start : Nat) : Span := ⟨start, start + 1⟩

/-- From the beginning of one range to the end of another. -/
def join (a b : Span) : Span := ⟨a.start, b.stop⟩

/-- The same range in a text with so many more bytes in front. -/
def shift (s : Span) (bytes : Nat) : Span := ⟨s.start + bytes, s.stop + bytes⟩

@[simp] theorem join_shift (a b : Span) (bytes : Nat) :
    (a.shift bytes).join (b.shift bytes) = (a.join b).shift bytes := rfl

end Span
end ExactCalculator
