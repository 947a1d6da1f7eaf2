import ExactCalculator.Session

/-!
The command line: `eval EXPRESSION`, and `run`, `tokenize` and `check` with the name of a file. It
reads the file, prints what the session says, and ends with the session's status. An argument that
begins with a minus sign stands behind `--`.
-/
namespace ExactCalculator

def usage : String :=
  "usage: eval [--] EXPRESSION | run [--] FILE | tokenize [--] FILE | check [--] FILE"

/-- The one argument of a command, if there is exactly one and it does not look like an option. -/
def argument? : List String → Option String
  | ["--", x] => some x
  | [x] => if x.startsWith "-" && x != "-" then none else some x
  | _ => none

def readText? (path : String) : IO (Option Text) := do
  try
    return some (← IO.FS.readFile path).toList
  catch _ =>
    return none

def Transcript.print (t : Transcript) : IO UInt32 := do
  for line in t.output do
    IO.println line
  for complaint in t.complaint?.toList do
    for line in complaint.report do
      IO.eprintln line
  return t.status.toUInt32

def refuse : IO UInt32 := do
  IO.eprintln usage
  return 2

def commandLine : List String → IO UInt32
  | "eval" :: rest =>
    match argument? rest with
    | some expression => (Session.eval expression.toList).print
    | none => refuse
  | name :: rest =>
    match FileCommand.ofName? name, argument? rest with
    | some command, some path => do (command.perform (← readText? path)).print
    | _, _ => refuse
  | [] => refuse

end ExactCalculator

def main (args : List String) : IO UInt32 := ExactCalculator.commandLine args
