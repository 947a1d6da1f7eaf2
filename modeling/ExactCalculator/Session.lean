import ExactCalculator.CaseFile.Verdict

/-!
Sessions of the command line as values: the lines that are printed, the complaint if there is one,
and the exit status. A file is worked on line by line; what was printed before a fault stays.
-/
namespace ExactCalculator

inductive Complaint where
  | fault (line : Nat) (f : Fault)
  | caseFile (e : CaseFileError)
  | unreadable
  deriving DecidableEq, Repr

def Complaint.message : Complaint → String
  | .fault line f => s!"[line {line}] Error: {f.message}"
  | .caseFile e => e.message
  | .unreadable => "the file cannot be read"

def Complaint.report : Complaint → List String
  | .fault line f => (Complaint.fault line f).message :: f.details
  | c => [s!"Error: {c.message}"]

structure Transcript where
  output : List String
  complaint? : Option Complaint
  status : Nat
  deriving DecidableEq, Repr

namespace Transcript

def done (output : List String) : Transcript := ⟨output, none, 0⟩

/-- Ends with a fault on the given line of the input. -/
def failed (line : Nat) (f : Fault) : Transcript := ⟨[], some (.fault line f), 65⟩

def unreadable : Transcript := ⟨[], some .unreadable, 1⟩

/-- The same session after some more lines were printed in front. -/
def after (output : List String) (t : Transcript) : Transcript :=
  ⟨output ++ t.output, t.complaint?, t.status⟩

@[simp] theorem after_nil (t : Transcript) : t.after [] = t := rfl

end Transcript

namespace Session

def eval (t : Text) : Transcript :=
  match evaluate t with
  | .ok value => .done [toString value]
  | .error f => .failed (f.lineIn t) f

/-- Evaluates lines of which the first has the given number; blank ones are passed over. -/
def runFrom (line : Nat) : List Text → Transcript
  | [] => .done []
  | t :: ts =>
    if t.trim.isEmpty then runFrom (line + 1) ts
    else
      match evaluate t with
      | .ok value => (runFrom (line + 1) ts).after [toString value]
      | .error f => .failed line f

theorem runFrom_blank {t : Text} (h : t.trim = []) (line : Nat) (ts : List Text) :
    runFrom line (t :: ts) = runFrom (line + 1) ts := by
  simp [runFrom, h]

/-- A value is printed before anything of the lines below. -/
theorem runFrom_value {t : Text} {value : Decimal} (h : t.trim ≠ [])
    (hv : evaluate t = .ok value) (line : Nat) (ts : List Text) :
    runFrom line (t :: ts) = (runFrom (line + 1) ts).after [toString value] := by
  simp [runFrom, h, hv]

/-- The first fault ends the session, whatever the lines below are. -/
theorem runFrom_fault {t : Text} {f : Fault} (h : t.trim ≠ []) (hf : evaluate t = .error f)
    (line : Nat) (ts : List Text) : runFrom line (t :: ts) = .failed line f := by
  simp [runFrom, h, hf]

def run (t : Text) : Transcript := runFrom 1 t.lines

/-- The descriptions of tokens up to the first fault. -/
def describeItems : List Item → List String × Option Fault
  | [] => ([], none)
  | i :: items =>
    match i.token with
    | .error f => ([], some f)
    | .ok t =>
      let (output, fault?) := describeItems items
      (t.describe :: output, fault?)

/-- Shows the tokens of lines of which the first has the given number; no line is passed over. -/
def tokenizeFrom (line : Nat) : List Text → Transcript
  | [] => .done ["EOF  null"]
  | t :: ts =>
    match describeItems t.items with
    | (output, none) => (tokenizeFrom (line + 1) ts).after output
    | (output, some f) => (Transcript.failed line f).after output

def tokenize (t : Text) : Transcript := tokenizeFrom 1 t.lines

/-- Checks the cases of a file and counts those that came out as expected. -/
def check (t : Text) : Transcript :=
  match CaseFile.read t with
  | .error e => ⟨[], some (.caseFile e), 1⟩
  | .ok cases =>
    let passed := cases.countP fun c => c.check.isCorrect
    let summary := s!"{passed}/{cases.length} passed"
    ⟨cases.map (fun c => c.describe c.check) ++ [summary], none,
      if passed = cases.length then 0 else 1⟩

end Session

inductive FileCommand where
  | run | tokenize | check
  deriving DecidableEq, Repr

def FileCommand.ofName? : String → Option FileCommand
  | "run" => some .run
  | "tokenize" => some .tokenize
  | "check" => some .check
  | _ => none

def FileCommand.perform : FileCommand → Option Text → Transcript
  | _, none => .unreadable
  | .run, some t => Session.run t
  | .tokenize, some t => Session.tokenize t
  | .check, some t => Session.check t

end ExactCalculator
