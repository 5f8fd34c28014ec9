import ScriptKit.Command

/-!
# The program

Reads the arguments, the setting of the debug variable, the script or the typed lines, and writes
what the library answers.
-/

set_option autoImplicit false

namespace ScriptKit

/-- Write a transcript to the two streams. -/
def Transcript.write (transcript : Transcript) : IO Unit := do
  IO.print transcript.out
  (← IO.getStdout).flush
  IO.eprint transcript.err

/-- Why the system could not open a file, if it is for one of the known reasons. -/
def FileError.ofSystem? : IO.Error → Option FileError
  | .noFileOrDirectory .. => some .missing
  | .inappropriateType _ code _ => if code = 21 then some .isDirectory else some .notDirectory
  | .otherError code _ => if code = 21 then some .isDirectory else none
  | .invalidArgument _ code _ => if code = 36 then some .tooLong else none
  | _ => none

/-- Open a file and read it. -/
def readScript (path : String) : IO (Except FileError ByteArray) := do
  try
    return .ok (← IO.FS.readBinFile path)
  catch error =>
    match FileError.ofSystem? error with
    | some reason => return .error reason
    | none => throw error

/-- End with the exit code of a call. -/
def CallResult.finish (result : CallResult) : IO UInt32 := do
  result.transcript.write
  match result.ending with
  | .ok code => return code.toUInt32
  | .error .undecodable => throw (IO.userError "the script is no well-formed UTF-8")
  | .error .nullInPath => throw (IO.userError "embedded null byte")

/-- A typed line without the line feed that ends it. -/
def withoutBreak (line : String) : String :=
  if line.endsWith "\n" then String.ofList line.toList.dropLast else line

/-- Take lines from the keyboard until one leaves the console or typing ends. -/
partial def Console.converse (console : Console) : IO Unit := do
  Transcript.write (.ofOut console.prompt)
  let typed ← (← IO.getStdin).getLine
  if typed.isEmpty then
    Transcript.write (.ofOut Ending.endOfInput.text)
  else
    match console.feed Exec.ampleFuel (withoutBreak typed) with
    | none => return ()
    | some (shown, next) =>
      shown.write
      match next with
      | none => return ()
      | some console => console.converse

end ScriptKit

open ScriptKit in
/-- Carry out what the arguments ask for. -/
def main (arguments : List String) : IO UInt32 := do
  let debug := Command.debugging (← IO.getEnv "QUILLDEBUG")
  match Command.ofArguments arguments with
  | .console =>
    Transcript.write (.ofOut Console.banner)
    (Console.start .standard debug).converse
    return 0
  | .script path =>
    match Command.runFile Exec.ampleFuel .standard debug path (← readScript path) with
    | none => return 1
    | some result => result.finish
  | command =>
    match command.run Exec.ampleFuel .standard debug ⟨[], []⟩ [] .endOfInput with
    | none => return 1
    | some result => result.finish
