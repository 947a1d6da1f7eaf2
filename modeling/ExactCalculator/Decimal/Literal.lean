import ExactCalculator.Decimal.Basic
import ExactCalculator.Text.Basic

/-!
Decimals as text. The written form is plain: a sign only before a negative value, at least one
digit before the point, exactly `scale` digits after it, and no point at scale 0. An unsigned
literal is read as digits with at most one point, and the first character that does not fit
decides how a text is refused.
-/
namespace ExactCalculator

inductive LiteralError where
  | noDigits
  | multiplePoints
  | invalidDigit (c : Char)
  deriving DecidableEq, Repr

def LiteralError.message : LiteralError → String
  | .noDigits => "literal has no digits"
  | .multiplePoints => "literal has more than one decimal point"
  | .invalidDigit c => s!"unexpected character '{c}' in literal"

namespace Decimal

/-- The digits of the mantissa, filled up with zeros so that one stands before the point. -/
def paddedDigits (d : Decimal) : Text :=
  (Nat.toDigits 10 d.mantissa.natAbs).leftpad (d.scale + 1) '0'

/-- The written form without the sign. -/
def renderMagnitude (d : Decimal) : Text :=
  let digits := d.paddedDigits
  if d.scale = 0 then digits
  else
    let whole := digits.length - d.scale
    digits.take whole ++ '.' :: digits.drop whole

def render (d : Decimal) : Text :=
  if d.mantissa < 0 then '-' :: d.renderMagnitude else d.renderMagnitude

instance : ToString Decimal := ⟨fun d => String.ofList d.render⟩

/-- The places of a literal and what follows them, given the text after its first digits. -/
def splitPlaces : Text → Text × Text
  | '.' :: more => more.span Char.isDigit
  | rest => ([], rest)

/-- Reads an unsigned literal. -/
def ofLiteral (t : Text) : Except LiteralError Decimal :=
  let whole := t.takeWhile Char.isDigit
  let (places, rest) := splitPlaces (t.dropWhile Char.isDigit)
  match rest with
  | '.' :: _ => .error .multiplePoints
  | c :: _ => .error (.invalidDigit c)
  | [] =>
    if (whole ++ places).isEmpty then .error .noDigits
    else .ok ⟨Nat.ofDigitChars 10 (whole ++ places) 0, places.length⟩

/-- Reads a literal that may have one minus sign in front. -/
def ofSigned : Text → Except LiteralError Decimal
  | '-' :: magnitude => (ofLiteral magnitude).map (- ·)
  | t => ofLiteral t

end Decimal
end ExactCalculator
