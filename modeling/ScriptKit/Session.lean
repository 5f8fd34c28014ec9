import ScriptKit.Execution
import ScriptKit.Program.Dump

/-!
# Sessions

A session keeps the variables of a program between the texts that run in it. Running a text reads
it, reports the syntax errors and then runs the statements up to the first failure. What was
wrong is kept as reports, and the error stream shows one entry for each.
-/

set_option autoImplicit false

namespace ScriptKit

/-- The variables, the name under which failures of the running program are reported, and how deep
walks over program trees may go. -/
structure Session where
  file : Option String
  room : Headroom
  vars : Variables

/-- What a run leaves behind. -/
structure Run where
  /-- The session after the run. -/
  session : Session
  /-- The dump shown before the run, if one was asked for. -/
  dump : String
  /-- The lines that the program printed. -/
  printed : List String
  /-- What was wrong, in the order in which it was found. -/
  reports : List Report
  /-- The verdict: did all go well? -/
  ok : Bool

namespace Run

/-- The text on the output stream. -/
def out (run : Run) : String := run.dump ++ String.join (run.printed.map (· ++ "\n"))

/-- The text on the error stream. -/
def err (run : Run) : String := String.join (run.reports.map Report.entry)

end Run

namespace Session

/-- A session without variables. -/
def fresh (room : Headroom) (file : Option String) : Session := ⟨file, room, ∅⟩

/-- Bind a variable. -/
def store (session : Session) (name : String) (value : Value) : Session :=
  { session with vars := session.vars.insert name value }

/-- Run statements. A failure ends the run, and is then what there is to report. -/
def runStatements (fuel : Nat) (session : Session) (statements : List Node) : Option Run := do
  let (result, machine) ← Node.execAll fuel session.room statements ⟨session.vars, #[]⟩
  let after := { session with vars := machine.vars }
  match result with
  | .ok () => return ⟨after, "", machine.printed.toList, [], true⟩
  | .error failure =>
    return ⟨after, "", machine.printed.toList, [failure.report session.file], false⟩

/-- Evaluate an expression. -/
def evaluate (session : Session) (node : Node) : Except Report Value × Session :=
  let (result, vars) := node.eval session.room session.vars
  (result.mapError (·.report session.file), { session with vars })

/-- Apply the operator that is written so. -/
def apply (session : Session) (operator : String) (lhs rhs : Value) (line : SourceLine) :
    Except Report Value :=
  (Operator.applySpelled operator lhs rhs).mapError fun fault =>
    Failure.report session.file ⟨fault, line⟩

/-- Run the text of the given name. A stray character keeps all of the text from running; a
malformed statement is reported and left out. -/
def runText (fuel : Nat) (session : Session) (file : Option String) (text : String)
    (debug : Bool) : Option Run :=
  match Program.ofText file text with
  | .error stray => some ⟨session, "", [], [stray.report file], false⟩
  | .ok program => do
    let run ← session.runStatements fuel program.statements
    return { run with
      dump := if debug then program.dump session.room else ""
      reports := program.errors.map (·.report file) ++ run.reports
      -- A failure settles the verdict. Without one it is up to the syntax errors.
      ok := run.ok && program.errors.isEmpty }

end Session

end ScriptKit
