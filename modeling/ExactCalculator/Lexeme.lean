import ExactCalculator.Span

/-!
The lexemes of a text. Spaces separate lexemes and belong to none. A longest run of ASCII digits
and points is one lexeme, every other character is one of its own; whether a lexeme means anything
is not decided here.
-/
namespace ExactCalculator

inductive Lexeme where
  | mark (c : Char)
  | run (t : Text)
  deriving DecidableEq, Repr

def Lexeme.text : Lexeme → Text
  | .mark c => [c]
  | .run t => t

/-- A lexeme at its place in a text. -/
structure Item where
  lexeme : Lexeme
  offset : Nat
  deriving DecidableEq, Repr

def Item.text (i : Item) : Text := i.lexeme.text

def Item.span (i : Item) : Span := .ofText i.offset i.text

/-- The characters that numbers are made of: ASCII digits and the point. -/
def isNumeral (c : Char) : Bool := c.isDigit || c == '.'

end ExactCalculator
