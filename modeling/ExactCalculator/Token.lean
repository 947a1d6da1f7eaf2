import ExactCalculator.Decimal.Normal
import ExactCalculator.Fault.Basic
import ExactCalculator.Lexeme

/-!
Tokens: lexemes that mean something. Of the other lexemes, a character of its own is an invalid
character, and a run of digits and points that is no literal a malformed one; either fault blames
the bytes of the whole lexeme.
-/
namespace ExactCalculator

inductive Meaning where
  | opening
  | closing
  | operator (op : Operator)
  | number (value : Decimal)
  deriving DecidableEq, Repr

structure Token where
  meaning : Meaning
  literal : Text
  offset : Nat
  deriving DecidableEq, Repr

/-- What a character of its own means, if anything. -/
def Meaning.ofMark? : Char → Option Meaning
  | '(' => some .opening
  | ')' => some .closing
  | c => (Operator.ofSymbol? c).map .operator

/-- The meaning of a lexeme, or what is wrong with it. -/
def Lexeme.meaning : Lexeme → Except Cause Meaning
  | .mark c =>
    match Meaning.ofMark? c with
    | some m => .ok m
    | none => .error (.invalidCharacter c)
  | .run t =>
    match Decimal.ofLiteral t with
    | .ok d => .ok (.number d)
    | .error reason => .error (.malformedLiteral t reason)

/-- The token that a lexeme is, or its fault. -/
def Item.token (i : Item) : Except Fault Token :=
  match i.lexeme.meaning with
  | .ok m => .ok ⟨m, i.text, i.offset⟩
  | .error cause => .error ⟨cause, i.span⟩

namespace Token

def span (t : Token) : Span := .ofText t.offset t.literal

/-- One line that shows what sort of token it is, its text, and the value of a number. -/
def describe (t : Token) : String :=
  let literal := String.ofList t.literal
  match t.meaning with
  | .opening => s!"LEFT_PAREN {literal} null"
  | .closing => s!"RIGHT_PAREN {literal} null"
  | .operator .minus => s!"MINUS {literal} null"
  | .operator .plus => s!"PLUS {literal} null"
  | .operator .star => s!"STAR {literal} null"
  | .operator .slash => s!"SLASH {literal} null"
  | .number value => s!"NUMBER {literal} {value.normalized}"

end Token

/-- Whether two meanings agree; numbers agree when they have one value. -/
def Meaning.agrees : Meaning → Meaning → Bool
  | .number a, .number b => a.sameValue b
  | m, n => m == n

/-- Whether two tokens agree in meaning and are written alike at one place. -/
def Token.agrees (t u : Token) : Bool :=
  t.meaning.agrees u.meaning && t.literal == u.literal && t.offset == u.offset

/-- A fault of a lexeme blames exactly its bytes. -/
theorem Item.span_fault {i : Item} {f : Fault} (h : i.token = .error f) : f.span = i.span := by
  unfold Item.token at h
  split at h
  next => cases h
  next => cases h; rfl

end ExactCalculator
