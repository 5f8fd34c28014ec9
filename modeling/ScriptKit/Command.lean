import ScriptKit.Console
import ScriptKit.FileTree

/-!
# The command line

Without arguments the console starts, with one argument a script runs or help is shown, and any
other call is a misuse that shows the help too.
-/

set_option autoImplicit false

namespace ScriptKit

/-- What a call of the program asks for. -/
inductive Command where
  | console
  | help
  | misuse
  | script (path : String)
deriving DecidableEq, Repr

/-- Why a call ends without an exit code. -/
inductive Abort where
  /-- The script is no well-formed UTF-8. -/
  | undecodable
  /-- The path of the script holds a null character. -/
  | nullInPath
deriving DecidableEq, Repr

/-- What a call wrote and how it ended. -/
structure CallResult where
  transcript : Transcript
  ending : Except Abort Nat

namespace Command

/-- What the arguments ask for. -/
def ofArguments : List String → Command
  | [] => console
  | [argument] => if argument = "-h" ∨ argument = "--help" then help else script argument
  | _ => misuse

/-- Is the setting of the debug variable in force? An empty one is not. -/
def debugging (setting : Option String) : Bool := setting.any (!·.isEmpty)

/-- The help text. -/
def helpText : String :=
  "\n".intercalate
    [ "",
      "Quill Language Interpreter",
      "",
      "Usage:",
      "    ql <script.ql>",
      "",
      "Arguments:",
      "    <script.ql>",
      "        Path to a Quill source file to execute.",
      "",
      "Example:",
      "    ql factorial.ql",
      "",
      "Or run with no arguments to enter interactive mode (REPL).",
      "",
      "Options:",
      "    -h, --help",
      "        Show this help message and exit.",
      "",
      "Environment:",
      "    QUILLDEBUG",
      "        When set, print the tokens and AST before running.",
      "" ]

/-- Run the script at a path, given what opening the path gave. -/
def runFile (fuel : Nat) (room : Headroom) (debug : Bool) (path : String)
    (content : Except FileError ByteArray) : Option CallResult :=
  if path.contains '\x00' then
    some ⟨.empty, .error .nullInPath⟩
  else
    match content with
    | .error error => some ⟨⟨"", error.entry path⟩, .ok 1⟩
    | .ok bytes =>
      match Text.ofFileBytes? bytes with
      | none => some ⟨.empty, .error .undecodable⟩
      | some text => do
        let run ← (Session.fresh room (some path)).runText fuel (some path) text debug
        return ⟨run.transcript, .ok (if run.ok then 0 else 1)⟩

/-- Carry a command out, with the given files below the current directory and with the lines that
are typed if the console starts. -/
def run (fuel : Nat) (room : Headroom) (debug : Bool) (files : FileTree) (typed : List String)
    (ending : Ending) : Command → Option CallResult
  | console => do return ⟨← Console.transcript fuel room debug typed ending, .ok 0⟩
  | help => some ⟨.ofOut helpText, .ok 0⟩
  | misuse => some ⟨.ofOut helpText, .ok 1⟩
  | script path => runFile fuel room debug path (files.read path)

end Command

end ScriptKit
