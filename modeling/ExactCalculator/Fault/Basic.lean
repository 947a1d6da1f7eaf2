import ExactCalculator.Decimal.Literal
import ExactCalculator.Fault.Kind
import ExactCalculator.Operator
import ExactCalculator.Span

/-!
Faults of an expression: what is wrong and which bytes of the text are to blame. The wording of
all diagnostics is here.
-/
namespace ExactCalculator

inductive Side where
  | opening | closing
  deriving DecidableEq, Repr

def Side.name : Side → String
  | .opening => "opening"
  | .closing => "closing"

inductive Cause where
  | invalidCharacter (c : Char)
  | malformedLiteral (literal : Text) (reason : LiteralError)
  | unmatchedParen (side : Side)
  | missingOperand (op : Operator)
  | danglingOperand
  | emptyExpression
  | divisionByZero
  deriving DecidableEq, Repr

namespace Cause

def kind : Cause → FaultKind
  | invalidCharacter _ => .invalidCharacter
  | malformedLiteral _ _ => .malformedLiteral
  | unmatchedParen _ => .unmatchedParen
  | missingOperand _ => .missingOperand
  | danglingOperand => .danglingOperand
  | emptyExpression => .emptyExpression
  | divisionByZero => .divisionByZero

def message : Cause → String
  | invalidCharacter c => s!"Unexpected character '{c}'"
  | malformedLiteral literal reason =>
    s!"Malformed numeric literal `{String.ofList literal}`: {reason.message}"
  | unmatchedParen side => s!"Unmatched {side.name} parenthesis"
  | missingOperand op => s!"Missing operand for '{op.symbol}'"
  | danglingOperand => "Value is not joined to the rest of the expression"
  | emptyExpression => "Nothing to evaluate"
  | divisionByZero => "Division by zero"

def help? : Cause → Option String
  | invalidCharacter _ =>
    some "only digits, '.', '+', '-', '*', '/', parentheses and spaces are allowed"
  | malformedLiteral _ _ => some "a number is a run of digits with at most one decimal point"
  | missingOperand _ => some "every operator needs a value on both sides"
  | danglingOperand => some "put an operator between adjacent values"
  | unmatchedParen _ | emptyExpression | divisionByZero => none

def label : Cause → String
  | invalidCharacter _ => "this character"
  | malformedLiteral _ _ => "this numeric literal"
  | unmatchedParen _ => "this parenthesis has no partner"
  | missingOperand _ => "this operator"
  | danglingOperand => "this value"
  | emptyExpression => "expected a number here"
  | divisionByZero => "this evaluates to zero"

end Cause

structure Fault where
  cause : Cause
  span : Span
  deriving DecidableEq, Repr

namespace Fault

def kind (f : Fault) : FaultKind := f.cause.kind

def message (f : Fault) : String := f.cause.message

/-- The same fault in a text with so many more bytes in front. -/
def shift (f : Fault) (bytes : Nat) : Fault := ⟨f.cause, f.span.shift bytes⟩

/-- What a report adds to the message: the code, the bytes to blame, and advice. -/
def details (f : Fault) : List String :=
  [s!"  {f.kind.code}",
    s!"  bytes {f.span.start} to {f.span.stop}: {f.cause.label}"] ++
    (f.cause.help?.map fun advice => s!"  help: {advice}").toList

/-- The line of the text in which the bytes to blame begin. -/
def lineIn (f : Fault) (t : Text) : Nat := Text.lineAt t f.span.start

end Fault

/-- Where a text comes from: a name, or none when it was given directly. -/
structure Source where
  name? : Option String
  text : Text

def Source.label (s : Source) : String := s.name?.getD "<input>"

end ExactCalculator
