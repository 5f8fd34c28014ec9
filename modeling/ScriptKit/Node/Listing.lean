import ScriptKit.Headroom
import ScriptKit.Node

/-!
# Program listings

`Node.listing` turns a tree back into text that reads like source. Operators and assignments are
put in parentheses, so that the shape of the tree can be seen. Statements stand on lines of their
own, and what a statement governs is indented by two more blanks.
-/

set_option autoImplicit false

namespace ScriptKit.Node

/-- The blanks in front of a statement; a negative indentation has none. -/
def margin (indent : Int) : String := String.ofList (List.replicate (2 * indent).toNat ' ')

/-- Statements in braces, from the listings of the statements. -/
def braced (indent : Int) (statements : List String) : String :=
  let inner := "\n".intercalate statements
  if inner.isEmpty then margin indent ++ "\x7b\x7d"
  else margin indent ++ "\x7b\n" ++ inner ++ "\n" ++ margin indent ++ "\x7d"

mutual

/-- The listing of a tree, unless it is deeper than the headroom. Expressions do not depend on the
indentation. -/
def listing? (room : Headroom) (indent : Int) (node : Node) : Option String :=
  match room.enter? with
  | none => none
  | some inner =>
    match node with
    | literal value _ => some value.sourceText
    | reference name _ => some name
    | binary op lhs rhs _ => do
      let left ← listing? inner 0 lhs
      let right ← listing? inner 0 rhs
      return "(" ++ left ++ " " ++ op.spelling ++ " " ++ right ++ ")"
    | assign name value _ => do
      let text ← listing? inner 0 value
      return "(" ++ name ++ " = " ++ text ++ ")"
    | evaluate expression _ => do
      let text ← listing? inner 0 expression
      return margin indent ++ text ++ ";"
    | declare name _ => some (margin indent ++ "var " ++ name ++ ";")
    | define name initial _ => do
      let text ← listing? inner 0 initial
      return margin indent ++ "var " ++ name ++ " = " ++ text ++ ";"
    | print expression _ => do
      let text ← listing? inner 0 expression
      return margin indent ++ "print " ++ text ++ ";"
    | ifThen condition thenBranch _ => do
      let test ← listing? inner 0 condition
      let first ← listing? inner (indent + 1) thenBranch
      return margin indent ++ "if " ++ test ++ "\n" ++ first
    | ifElse condition thenBranch elseBranch _ => do
      let test ← listing? inner 0 condition
      let first ← listing? inner (indent + 1) thenBranch
      let second ← listing? inner (indent + 1) elseBranch
      return margin indent ++ "if " ++ test ++ "\n" ++ first ++ "\n" ++
        margin indent ++ "else\n" ++ second
    | loop condition body _ => do
      let test ← listing? inner 0 condition
      let text ← listing? inner (indent + 1) body
      return margin indent ++ "while " ++ test ++ "\n" ++ text
    | block statements _ => do
      let texts ← listings? inner (indent + 1) statements
      return braced indent texts
    | skipped message _ => some (margin indent ++ "<skipped: " ++ message ++ ">")
    | unknown tag _ => some (margin indent ++ "<node " ++ tag ++ ">")

/-- The listings of statements in a row. -/
def listings? (room : Headroom) (indent : Int) : List Node → Option (List String)
  | [] => some []
  | first :: rest => do
    let text ← listing? room indent first
    let texts ← listings? room indent rest
    return text :: texts

end

/-- The listing of a tree of any depth. -/
def listing (indent : Int) (node : Node) : String :=
  (listing? .unlimited indent node).getD ""

end ScriptKit.Node
