/-!
Exact decimals: a mantissa of any size and the number of its digits that stand after the point.
Two decimals of different scales can have one value (`7` and `7.0`), so numeric comparison is
`compare` and `sameValue`, whereas `=` also compares the scales. Operands of different scales are
brought to the larger one, which loses no digit.

The operations here are the exact ones, for scales of any size. A machine keeps scales in words, and
a sum of scales can be too large for a word; `Limits` has the operations with this limit.
-/
namespace ExactCalculator

def powTen (k : Nat) : Nat := Nat.pow 10 k

@[simp] theorem powTen_zero : powTen 0 = 1 := rfl
theorem powTen_succ (k : Nat) : powTen (k + 1) = powTen k * 10 := rfl
theorem powTen_pos (k : Nat) : 0 < powTen k := Nat.pow_pos (by decide)

/-- The number `mantissa * 10 ^ (-scale)`. -/
structure Decimal where
  mantissa : Int
  scale : Nat
  deriving DecidableEq, Repr

namespace Decimal

def ofInt (i : Int) : Decimal := ⟨i, 0⟩

def zero : Decimal := ofInt 0

def isZero (d : Decimal) : Bool := d.mantissa == 0

/-- The mantissa of the same value at a scale that is at least the decimal's own. -/
def mantissaAt (d : Decimal) (scale : Nat) : Int :=
  d.mantissa * powTen (scale - d.scale)

@[simp] theorem mantissaAt_self (d : Decimal) : d.mantissaAt d.scale = d.mantissa := by
  simp [mantissaAt]

def commonScale (a b : Decimal) : Nat := max a.scale b.scale

def add (a b : Decimal) : Decimal :=
  ⟨a.mantissaAt (commonScale a b) + b.mantissaAt (commonScale a b), commonScale a b⟩

def sub (a b : Decimal) : Decimal :=
  ⟨a.mantissaAt (commonScale a b) - b.mantissaAt (commonScale a b), commonScale a b⟩

/-- The exact product; where the sum of the scales has a limit, see `mulBelow?`. -/
def mul (a b : Decimal) : Decimal := ⟨a.mantissa * b.mantissa, a.scale + b.scale⟩

def neg (a : Decimal) : Decimal := ⟨-a.mantissa, a.scale⟩

instance : Add Decimal := ⟨add⟩
instance : Sub Decimal := ⟨sub⟩
instance : Mul Decimal := ⟨mul⟩
instance : Neg Decimal := ⟨neg⟩

@[simp] theorem scale_add (a b : Decimal) : (a + b).scale = max a.scale b.scale := rfl
@[simp] theorem scale_sub (a b : Decimal) : (a - b).scale = max a.scale b.scale := rfl
@[simp] theorem scale_mul (a b : Decimal) : (a * b).scale = a.scale + b.scale := rfl
@[simp] theorem scale_neg (a : Decimal) : (-a).scale = a.scale := rfl
@[simp] theorem mantissa_mul (a b : Decimal) : (a * b).mantissa = a.mantissa * b.mantissa := rfl
@[simp] theorem mantissa_neg (a : Decimal) : (-a).mantissa = -a.mantissa := rfl

/-- The order of the values, whatever the scales. -/
instance : Ord Decimal where
  compare a b := compare (a.mantissaAt (commonScale a b)) (b.mantissaAt (commonScale a b))

theorem compare_def (a b : Decimal) :
    compare a b = compare (a.mantissaAt (commonScale a b)) (b.mantissaAt (commonScale a b)) :=
  rfl

instance : LT Decimal where
  lt a b := compare a b = .lt

instance (a b : Decimal) : Decidable (a < b) := inferInstanceAs (Decidable (compare a b = .lt))

/-- Whether two decimals have one value: `7.0` and `7` have. -/
def sameValue (a b : Decimal) : Bool := compare a b == .eq

theorem sameValue_iff (a b : Decimal) :
    a.sameValue b = true ↔
      a.mantissaAt (commonScale a b) = b.mantissaAt (commonScale a b) := by
  rw [sameValue, beq_iff_eq, compare_def, Int.compare_eq_eq]

end Decimal
end ExactCalculator
