import ExactCalculator.Fault.Kind
import ExactCalculator.Decimal.Literal
import ExactCalculator.Text.Blank
import ExactCalculator.Text.Lines

/-!
Case files: one `expression,expected` on each line, cut at the last comma. Blank lines and lines
whose first character that is not blank is a number sign are skipped. What is expected is a value,
perhaps negative, or `!` and the name of a kind of fault. The first bad line decides the error.
-/
namespace ExactCalculator

inductive Expected where
  | value (d : Decimal)
  | fault (k : FaultKind)
  deriving DecidableEq, Repr

def Expected.render : Expected → String
  | .value d => toString d
  | .fault k => s!"!{k.name}"

/-- Whether two expectations agree; values are compared as numbers. -/
def Expected.agrees : Expected → Expected → Bool
  | .value a, .value b => a.sameValue b
  | .fault k, .fault l => k == l
  | _, _ => false

structure Case where
  /-- The line of the file, counted from 1. -/
  line : Nat
  expression : Text
  expected : Expected
  deriving DecidableEq, Repr

def Case.agrees (a b : Case) : Bool :=
  a.line == b.line && a.expression == b.expression && a.expected.agrees b.expected

inductive LineError where
  | missingSeparator
  | badValue (t : Text) (reason : LiteralError)
  | badKind (t : Text)
  deriving DecidableEq, Repr

def LineError.message : LineError → String
  | .missingSeparator => "expected `expression,expected`"
  | .badValue t reason => s!"bad expected value `{String.ofList t}`: {reason.message}"
  | .badKind t => unknownKindMessage t

/-- The first bad line of a file and what is wrong with it. -/
structure CaseFileError where
  line : Nat
  reason : LineError
  deriving DecidableEq, Repr

def CaseFileError.message (e : CaseFileError) : String := s!"line {e.line}: {e.reason.message}"

/-- Cuts a text at its last comma, which belongs to neither part. -/
def Text.splitLastComma? : Text → Option (Text × Text)
  | [] => none
  | c :: t =>
    match splitLastComma? t with
    | some (front, back) => some (c :: front, back)
    | none => if c = ',' then some ([], t) else none

@[simp] theorem Text.splitLastComma?_eq_none_iff (t : Text) :
    t.splitLastComma? = none ↔ ',' ∉ t := by
  induction t with
  | nil => simp [splitLastComma?]
  | cons c t ih =>
    simp only [splitLastComma?]
    split
    next front back h =>
      have : ',' ∈ t := Decidable.not_not.mp fun hn => by simp [ih.mpr hn] at h
      simp [this]
    next h =>
      have := ih.mp h
      by_cases hc : c = ','
      · simp [hc]
      · simp [hc, this, Ne.symm hc]

/-- The part behind a comma that no other follows is cut off. -/
theorem Text.splitLastComma?_append (front : Text) {back : Text} (h : ',' ∉ back) :
    splitLastComma? (front ++ ',' :: back) = some (front, back) := by
  induction front with
  | nil => simp [splitLastComma?, (splitLastComma?_eq_none_iff back).mpr h]
  | cons c front ih => simp [splitLastComma?, ih]

/-- Reads what is expected, blanks around it removed. -/
def Expected.ofText : Text → Except LineError Expected
  | '!' :: name =>
    match FaultKind.ofName? name with
    | some k => .ok (.fault k)
    | none => .error (.badKind name)
  | t =>
    match Decimal.ofSigned t with
    | .ok d => .ok (.value d)
    | .error reason => .error (.badValue t reason)

/-- Whether a line holds no case: it is blank or a comment. -/
def Text.isSkipped (t : Text) : Bool :=
  match t.trimStart with
  | [] => true
  | c :: _ => c == '#'

def Text.readCase (t : Text) : Except LineError (Text × Expected) :=
  match t.splitLastComma? with
  | none => .error .missingSeparator
  | some (expression, back) =>
    match Expected.ofText back.trim with
    | .ok expected => .ok (expression, expected)
    | .error reason => .error reason

/-- A line is judged by what stands behind its last comma. -/
theorem Text.readCase_append (front : Text) {back : Text} (h : ',' ∉ back) :
    readCase (front ++ ',' :: back) =
      Expected.ofText back.trim >>= fun expected => .ok (front, expected) := by
  rw [readCase, splitLastComma?_append front h]
  dsimp only
  cases Expected.ofText back.trim with
  | ok expected => rfl
  | error reason => rfl

namespace CaseFile

/-- Reads the cases of lines of which the first has the given number. -/
def readFrom (line : Nat) : List Text → Except CaseFileError (List Case)
  | [] => .ok []
  | t :: ts =>
    if t.isSkipped then readFrom (line + 1) ts
    else
      match t.readCase with
      | .error reason => .error ⟨line, reason⟩
      | .ok (expression, expected) =>
        match readFrom (line + 1) ts with
        | .ok cases => .ok (⟨line, expression, expected⟩ :: cases)
        | .error e => .error e

def read (t : Text) : Except CaseFileError (List Case) := readFrom 1 t.lines

@[simp] theorem readFrom_nil (line : Nat) : readFrom line [] = .ok [] := rfl

theorem readFrom_skipped {t : Text} (h : t.isSkipped = true) (line : Nat) (ts : List Text) :
    readFrom line (t :: ts) = readFrom (line + 1) ts := by
  simp [readFrom, h]

/-- A bad line ends the reading, whatever follows it. -/
theorem readFrom_bad {t : Text} {reason : LineError} (h : t.isSkipped = false)
    (hr : t.readCase = .error reason) (line : Nat) (ts : List Text) :
    readFrom line (t :: ts) = .error ⟨line, reason⟩ := by
  simp [readFrom, h, hr]

end CaseFile
end ExactCalculator
