import ScriptKit.Session
import ScriptKit.Text.Blank

/-!
# The console

The console runs a program line by line as it is typed. Lines that stop in the middle of a
statement wait for the lines that complete it; everything else runs at once, in one session.
-/

set_option autoImplicit false

namespace ScriptKit

/-- What was written to the two streams. -/
structure Transcript where
  out : String
  err : String
deriving DecidableEq, Repr

namespace Transcript

/-- Nothing was written. -/
def empty : Transcript := ⟨"", ""⟩

/-- First the one, then the other. -/
def append (first second : Transcript) : Transcript :=
  ⟨first.out ++ second.out, first.err ++ second.err⟩

instance : Append Transcript := ⟨append⟩

/-- Text on the output stream only. -/
def ofOut (text : String) : Transcript := ⟨text, ""⟩

end Transcript

/-- What a run wrote. -/
def Run.transcript (run : Run) : Transcript := ⟨run.out, run.err⟩

/-- How typing comes to an end. -/
inductive Ending where
  /-- There is no more input. -/
  | endOfInput
  /-- The user broke off. -/
  | interrupt
deriving DecidableEq, Repr

/-- What is written when typing ends. -/
def Ending.text : Ending → String
  | endOfInput => "\n"
  | interrupt => "\nInterrupted.\n"

/-- The console between two lines. -/
structure Console where
  /-- The session in which the lines run. -/
  session : Session
  /-- The lines that wait for completion, the earliest first. -/
  pending : List String
  /-- Are programs dumped before they run? -/
  debug : Bool

namespace Console

/-- The name of the typed text in messages. -/
def file : Option String := some "<stdin>"

/-- What is written when the console starts. -/
def banner : String :=
  "Quill Language Interpreter - REPL\nType `exit` or `quit` to leave.\n"

/-- A console on which nothing has been typed. -/
def start (room : Headroom) (debug : Bool) : Console := ⟨Session.fresh room file, [], debug⟩

/-- What is written in front of a line. -/
def prompt (console : Console) : String :=
  if console.pending.isEmpty then ">>> " else "... "

/-- Does the line leave the console? It does so only if no other line waits. -/
def leaves (console : Console) (line : String) : Bool :=
  console.pending.isEmpty && ["exit", "quit"].contains (Text.trimBlank line)

/-- Take the line that was typed. There is no console afterwards if the line leaves it. -/
def feed (fuel : Nat) (console : Console) (line : String) :
    Option (Transcript × Option Console) :=
  if console.leaves line then
    some (.empty, none)
  else
    let pending := console.pending ++ [line]
    let text := "\n".intercalate pending
    match Program.ofText file text with
    | .error stray =>
      some (⟨"", (stray.report file).entry⟩, some { console with pending := [] })
    | .ok program =>
      if program.errors.getLast?.any SyntaxError.atEnd then
        some (.empty, some { console with pending })
      else do
        let run ← console.session.runText fuel file text console.debug
        return (run.transcript, some { console with session := run.session, pending := [] })

/-- Type lines one after the other, with the prompts that are shown. -/
def play (fuel : Nat) (console : Console) : List String → Option (Transcript × Option Console)
  | [] => some (.empty, some console)
  | line :: rest => do
    let (shown, next) ← console.feed fuel line
    let shown := Transcript.ofOut console.prompt ++ shown
    match next with
    | none => return (shown, none)
    | some console =>
      let (more, last) ← console.play fuel rest
      return (shown ++ more, last)

/-- The whole transcript of a console on which the lines are typed until typing ends. -/
def transcript (fuel : Nat) (room : Headroom) (debug : Bool) (typed : List String)
    (ending : Ending) : Option Transcript := do
  let (shown, last) ← (start room debug).play fuel typed
  let farewell :=
    match last with
    | none => ""
    | some console => console.prompt ++ ending.text
  return Transcript.ofOut banner ++ shown ++ Transcript.ofOut farewell

end Console

end ScriptKit
