import ScriptKit.Fault
import ScriptKit.Token.Scan

/-!
# Syntax errors

A syntax error says what the grammar wants at some token and which token stands there instead.
-/

set_option autoImplicit false

namespace ScriptKit

/-- What the grammar has to object to. -/
inductive Complaint where
  /-- A token of this kind has to follow. -/
  | expectedKind (kind : Token.Kind)
  /-- The text has to end here. -/
  | expectedEnd
  /-- An expression has to follow. -/
  | expectedExpression
  /-- An opened group is not closed. -/
  | unclosedGroup
  /-- The name of a declared variable is missing. -/
  | missingName
  /-- A declaration is not ended. -/
  | unendedDeclaration
  /-- A `print` statement is not ended. -/
  | unendedPrint
  /-- An expression statement is not ended. -/
  | unendedExpression
  /-- The condition of an `if` is not opened. -/
  | unopenedIf
  /-- The condition of an `if` is not closed. -/
  | unclosedIf
  /-- The condition of a `while` is not opened. -/
  | unopenedWhile
  /-- The condition of a `while` is not closed. -/
  | unclosedWhile
  /-- A block is not closed. -/
  | unclosedBlock
  /-- What stands before the assignment mark is no variable. -/
  | invalidTarget
  /-- The program is nested deeper than the grammar allows. -/
  | nestedTooDeep
  /-- An objection in the words of a caller. -/
  | described (text : String)
deriving DecidableEq, Repr

/-- How many levels deep groups, assigned values, blocks and branches may stand in each other. -/
def maxNesting : Nat := 48

namespace Complaint

/-- The words of a complaint. -/
def text : Complaint → String
  | expectedKind kind => "Expected token of type " ++ kind.label
  | expectedEnd => "Expected token of type EOF"
  | expectedExpression => "Expected expression"
  | unclosedGroup => "Expected ')' after expression"
  | missingName => "Expected variable name after 'var'"
  | unendedDeclaration => "Expected ';' after variable declaration"
  | unendedPrint => "Expected ';' after value"
  | unendedExpression => "Expected ';' after expression"
  | unopenedIf => "Expected '(' after 'if'"
  | unclosedIf => "Expected ')' after if condition"
  | unopenedWhile => "Expected '(' after 'while'"
  | unclosedWhile => "Expected ')' after while condition"
  | unclosedBlock => "Expected '\x7d' after block"
  | invalidTarget => "Invalid assignment target"
  | nestedTooDeep => s!"Nesting deeper than {maxNesting} levels"
  | described text => text

end Complaint

/-- A complaint, the token it is about, and where that token stands: its line and how many tokens
are before it. The end of the text is no token. -/
structure SyntaxError where
  complaint : Complaint
  found : Option Token
  line : Nat
  index : Nat
deriving DecidableEq, Repr

namespace SyntaxError

/-- Does the error come from a text that ends too early? -/
def atEnd (error : SyntaxError) : Bool := error.found.isNone

/-- What is wrong, without its place. -/
def text (error : SyntaxError) : String :=
  error.complaint.text ++ ", got " ++
    match error.found with
    | none => "end of input"
    | some token => "'" ++ token.text ++ "'"

/-- The report on the error in a text of the given name. -/
def report (file : Option String) (error : SyntaxError) : Report :=
  ⟨.malformed error.text error.atEnd, some error.line, file⟩

end SyntaxError

/-- The report on a stray character in a text of the given name. -/
def StrayCharacter.report (file : Option String) (stray : StrayCharacter) : Report :=
  ⟨.strayCharacter stray.char.toString, some stray.line, file⟩

end ScriptKit
