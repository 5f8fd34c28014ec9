import ScriptKit.Operator

/-!
# Program trees

Expressions and statements share one type of tree. Tools hand over trees in which a statement
stands for an expression, or the other way round, or with a tag that nobody knows; what such a
tree means is decided where it is evaluated or listed, not by its type.
-/

set_option autoImplicit false

namespace ScriptKit

/-- The line on which a node starts, if it is known. -/
abbrev SourceLine := Option Int

/-- A program tree. Every node ends with its line. -/
inductive Node where
  /-- A value written out. -/
  | literal (value : Value) (line : SourceLine)
  /-- A variable that is read. -/
  | reference (name : String) (line : SourceLine)
  /-- An operator between two expressions. -/
  | binary (op : Operator) (lhs rhs : Node) (line : SourceLine)
  /-- An assignment, itself an expression. -/
  | assign (name : String) (value : Node) (line : SourceLine)
  /-- A statement that evaluates an expression and drops its value. -/
  | evaluate (expression : Node) (line : SourceLine)
  /-- A declaration without an initial value. -/
  | declare (name : String) (line : SourceLine)
  /-- A declaration with an initial value. -/
  | define (name : String) (initial : Node) (line : SourceLine)
  /-- A statement that prints a value on a line of its own. -/
  | print (expression : Node) (line : SourceLine)
  /-- A conditional with one branch. -/
  | ifThen (condition thenBranch : Node) (line : SourceLine)
  /-- A conditional with two branches. -/
  | ifElse (condition thenBranch elseBranch : Node) (line : SourceLine)
  /-- A loop that goes on while its condition holds. -/
  | loop (condition body : Node) (line : SourceLine)
  /-- Statements in braces. -/
  | block (statements : List Node) (line : SourceLine)
  /-- The place of a malformed statement, with the message about it. -/
  | skipped (message : String) (line : SourceLine)
  /-- A node with a tag of somebody else's making. -/
  | unknown (tag : String) (line : SourceLine)
deriving Repr, Inhabited

namespace Node

/-- The line on which the node starts. -/
def line : Node → SourceLine
  | literal _ line | reference _ line | binary _ _ _ line | assign _ _ line | evaluate _ line
  | declare _ line | define _ _ line | print _ line | ifThen _ _ line | ifElse _ _ _ line
  | loop _ _ line | block _ line | skipped _ line | unknown _ line => line

/-- The name of the node's form, as messages use it. -/
def tag : Node → String
  | literal .. => "literal"
  | reference .. => "ident"
  | binary op .. => op.spelling
  | assign .. => "assign"
  | evaluate .. => "expr_stmt"
  | declare .. | define .. => "var"
  | print .. => "print"
  | ifThen .. | ifElse .. => "if"
  | loop .. => "while"
  | block .. => "block"
  | skipped .. => "skipped"
  | unknown tag _ => tag

/-- Is the node the place of a malformed statement? -/
def isMarker : Node → Bool
  | skipped .. => true
  | _ => false

end Node

end ScriptKit
