import ScriptKit.Grammar.Rules

/-!
# Reading rule by rule

A reader stands at a place between tokens and counts the levels that are open there. The rules of
the grammar can be called on it one by one, in any order. A rule that goes one level further in
raises the count and lowers it again, whether what it reads there is read or refused; at
`maxNesting` levels it complains instead. The greatest count there has ever been is kept beside it.
-/

set_option autoImplicit false

namespace ScriptKit

/-- A place between tokens, and the levels that are open there. -/
structure Reader where
  cursor : Cursor
  /-- How many levels are open. -/
  depth : Nat
  /-- The most levels that have been open at once. -/
  deepest : Nat

namespace Reader

/-- In front of the first token, with no level open. -/
def start (file : Option String) (tokens : TokenList) : Reader := ⟨Cursor.start file tokens, 0, 0⟩

/-- Open a level. -/
def enter (reader : Reader) : Reader :=
  { reader with
    depth := reader.depth + 1
    deepest := Nat.max reader.deepest (reader.depth + 1) }

/-- Close a level. -/
def leave (reader : Reader) : Reader := { reader with depth := reader.depth - 1 }

end Reader

/-- A step that moves a reader. -/
def CountedWalk (α : Type) : Type := StateM Reader α

/-- A step of the grammar that counts its levels. -/
abbrev CountedParse := ParseIn CountedWalk

namespace CountedWalk

instance : Monad CountedWalk := inferInstanceAs (Monad (StateM Reader))

instance : MonadFinally CountedWalk := inferInstanceAs (MonadFinally (StateM Reader))

instance : MonadStateOf Reader CountedWalk := inferInstanceAs (MonadStateOf Reader (StateM Reader))

/-- The cursor of a reader can be moved on its own. -/
instance : MonadStateOf Cursor CountedWalk where
  get := do return (← getThe Reader).cursor
  set cursor := modifyThe Reader fun reader => { reader with cursor }
  modifyGet move := modifyGetThe Reader fun reader =>
    let (result, cursor) := move reader.cursor
    (result, { reader with cursor })

end CountedWalk

namespace Grammar

open Parse

/-- Read one level further in, if a level is left. The level is closed however the reading ends. -/
def deeper (action : CountedParse Node) : CountedParse Node := do
  if (← getThe Reader).depth < maxNesting then
    modifyThe Reader Reader.enter
    try action finally modifyThe Reader Reader.leave
  else
    fail .nestedTooDeep

/-- The parsers one level further in, for as many levels. Where none is left, no parser is asked:
the count of the reader has come to `maxNesting` by then. -/
def counted : Nat → NestedIn CountedWalk
  | 0 => ⟨deeper (fail .nestedTooDeep), deeper (fail .nestedTooDeep), deeper (fail .nestedTooDeep)⟩
  | levels + 1 =>
    let inner := counted levels
    ⟨deeper (expression inner), deeper (statement inner), deeper (braced (declaration inner))⟩

end Grammar

/-- What can be asked of a reader. -/
inductive Call where
  /-- Pass the next token. -/
  | advance
  /-- Pass a token of the kind with this label, or complain; an empty message stands for the usual
  one. -/
  | eat (label message : String)
  /-- Go on to the next place where a statement may begin. -/
  | resume
  | primary
  | factor
  | term
  | comparison
  | equality
  | expression
  | group
  | statement
  | declaration
  | body
  | block
  | varDeclaration
  | printStatement
  | ifStatement
  | whileStatement
  | expressionStatement
  | program
deriving DecidableEq, Repr

/-- What a reader answers. -/
inductive Answer where
  | done
  /-- The token that was passed; at the end there is none. -/
  | token (token : Option Token)
  | node (node : Node)
  | nodes (nodes : List Node)

namespace Call

open Parse Grammar

section Rules

variable {w : Type → Type} [Monad w] [MonadStateOf Cursor w]

/-- Pass a token of the kind with this label. The end of the text has a label too, but it is only
looked at. -/
def eatLabel (label message : String) : ParseIn w Answer :=
  let complaint (usual : Complaint) : Complaint :=
    if message.isEmpty then usual else .described message
  match Token.Kind.ofLabel? label with
  | some kind => return .token (some (← expect kind (complaint (.expectedKind kind))))
  | none =>
    if label = "EOF" then do
      expectEnd (complaint .expectedEnd)
      return .token none
    else
      fail (complaint (.described ("Expected token of type " ++ label)))

/-- Answer with the node that is read. -/
def answering (action : ParseIn w Node) : ParseIn w Answer := do
  return .node (← action)

/-- The rule that a call asks for, with the parsers one level further in. -/
def rule (inner : NestedIn w) : Call → ParseIn w Answer
  | advance => do
    let token := (← get).current?
    Parse.advance
    return .token token
  | eat label message => eatLabel label message
  | resume => do
    modify Cursor.resume
    return .done
  | primary => answering (Grammar.primary inner)
  | factor => answering (Grammar.factor inner)
  | term => answering (Grammar.term inner)
  | comparison => answering (Grammar.comparison inner)
  | equality => answering (Grammar.equality inner)
  | expression => answering (Grammar.expression inner)
  | group => answering inner.group
  | statement => answering (Grammar.statement inner)
  | declaration => answering (Grammar.declaration inner : w Node)
  | body => answering inner.body
  | block => answering inner.block
  | varDeclaration => answering (Grammar.varDeclaration inner)
  | printStatement => answering (Grammar.printStatement inner)
  | ifStatement => answering (Grammar.ifStatement inner)
  | whileStatement => answering (Grammar.whileStatement inner)
  | expressionStatement => answering (Grammar.expressionStatement inner)
  | program => do
    return .nodes (← (declarations Cursor.isAtEnd (Grammar.declaration inner) : w (List Node)))

end Rules

end Call

namespace Reader

/-- Answer a call, or refuse it with a syntax error. Also then the reader stays where it was moved
to. -/
def call (reader : Reader) (call : Call) : Except SyntaxError Answer × Reader :=
  (call.rule (Grammar.counted maxNesting) : CountedParse Answer).run.run reader

/-- The reader after some calls, answered or refused. -/
def afterCalls (reader : Reader) (calls : List Call) : Reader :=
  calls.foldl (fun reader call => (reader.call call).2) reader

end Reader

end ScriptKit
