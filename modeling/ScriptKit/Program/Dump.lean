import ScriptKit.Node.Listing
import ScriptKit.Program

/-!
# The dump of a program

Before a program runs, its tokens and the listings of its statements can be shown.
-/

set_option autoImplicit false

namespace ScriptKit

/-- A token in a dump. -/
def Token.dump (label text : String) (line : Nat) : String :=
  "Token(" ++ label ++ ", " ++ Text.quoted text ++ s!", line={line})"

/-- All tokens in a dump; the end of the text is shown as a token without text. -/
def TokenList.dump (tokens : TokenList) : String :=
  let shown := tokens.tokens.map fun token => Token.dump token.kind.label token.text token.line
  "[" ++ ", ".intercalate (shown ++ [Token.dump "EOF" "" tokens.endLine]) ++ "]"

/-- A statement in a dump. One that is too deep for a listing is named by its line. -/
def Node.dump (room : Headroom) (node : Node) : String :=
  match node.listing? room 0 with
  | some text => text
  | none => located "<statement" node.line none ++ " nested too deeply to display>"

/-- The dump of a program. -/
def Program.dump (room : Headroom) (program : Program) : String :=
  "\nTokens:\n\n" ++ program.tokens.dump ++ "\n\nAST:\n\n" ++
    String.join (program.statements.map fun node => node.dump room ++ "\n") ++ " \n"

end ScriptKit
