import ScriptKit.Grammar.Rules

/-!
# Programs

A program is read from its text in two steps, from characters to tokens and from tokens to
statements. Reading never stops at a malformed statement: a marker takes its place, and its error
is kept beside the statements.
-/

set_option autoImplicit false

namespace ScriptKit

/-- A program as it was read: its tokens, its statements and the syntax errors recovered from. -/
structure Program where
  tokens : TokenList
  statements : List Node
  errors : List SyntaxError
deriving Repr

namespace Program

/-- The program that a list of tokens spells, in a text of the given name. -/
def ofTokens (file : Option String) (tokens : TokenList) : Program :=
  let (statements, c) := Grammar.program.run (Cursor.start file tokens)
  ⟨tokens, statements, c.errors.toList⟩

/-- The program in a text of the given name, unless a character of it belongs to no token. -/
def ofText (file : Option String) (text : String) : Except StrayCharacter Program :=
  (TokenList.ofText text).map (ofTokens file)

end Program

end ScriptKit
