import ScriptKit.Grammar.SyntaxError
import ScriptKit.Node

/-!
# A place between tokens

A cursor stands in a list of tokens, with some of them passed and the others ahead, and remembers
the syntax errors that were recovered from. The steps of the grammar are `Parse` actions: they
move the cursor and give a result or a syntax error, and also after an error the cursor stays
where it was moved to. Steps that recover from errors are `Walk` actions, which have a result in
every case. The single steps are written for any monad `w` that keeps a cursor, alone or beside
something else.
-/

set_option autoImplicit false

namespace ScriptKit

/-- A place between tokens. -/
structure Cursor where
  /-- The name of the text. -/
  file : Option String
  /-- The tokens before the place, the nearest first. -/
  passed : List Token
  /-- The tokens after the place, the nearest first. -/
  ahead : List Token
  /-- The line on which the text ends. -/
  endLine : Nat
  /-- The errors recovered from, the earliest first. -/
  errors : Array SyntaxError
deriving Repr

namespace Cursor

/-- In front of the first token. -/
def start (file : Option String) (tokens : TokenList) : Cursor :=
  ⟨file, [], tokens.tokens, tokens.endLine, #[]⟩

/-- How many tokens have been passed. -/
def position (c : Cursor) : Nat := c.passed.length

/-- The next token; at the end there is none. -/
def current? (c : Cursor) : Option Token := c.ahead.head?

/-- The token that was passed last. -/
def lastPassed? (c : Cursor) : Option Token := c.passed.head?

/-- Are all tokens passed? -/
def isAtEnd (c : Cursor) : Bool := c.ahead.isEmpty

/-- Is the next token of the given kind? -/
def isAt (c : Cursor) (kind : Token.Kind) : Bool := c.current?.any (·.kind = kind)

/-- The line of the next token, or the line on which the text ends. -/
def line (c : Cursor) : Nat := (c.current?.map Token.line).getD c.endLine

/-- Pass the next token, if there is one. -/
def advance (c : Cursor) : Cursor :=
  match c.ahead with
  | [] => c
  | token :: rest => { c with passed := token :: c.passed, ahead := rest }

/-- A complaint about the next token. -/
def errorHere (c : Cursor) (complaint : Complaint) : SyntaxError :=
  ⟨complaint, c.current?, c.line, c.position⟩

/-- Pass tokens up to a place where a statement may begin: behind a semicolon or in front of a
token that begins a statement. -/
def passStatement (passed : List Token) : List Token → List Token × List Token
  | [] => (passed, [])
  | token :: rest =>
    if passed.head?.any (·.kind = .semicolon) || token.kind.startsStatement then
      (passed, token :: rest)
    else passStatement (token :: passed) rest

/-- Pass the next token and then go on to a place where a statement may begin. -/
def resume (c : Cursor) : Cursor :=
  let c := c.advance
  let (passed, ahead) := passStatement c.passed c.ahead
  { c with passed, ahead }

end Cursor

/-- A step that moves the cursor. -/
abbrev Walk := StateM Cursor

section Steps

variable {w : Type → Type} [Monad w] [MonadStateOf Cursor w]

namespace Walk

/-- Record an error, go on to the next place where a statement may begin, and leave a marker in
place of the malformed statement. -/
def markMalformed (error : SyntaxError) : w Node := do
  let c ← get
  set { c with errors := c.errors.push error }.resume
  return .skipped (error.report c.file).message (some error.line)

end Walk

/-- A step that may also end in a syntax error. -/
abbrev ParseIn (w : Type → Type) := ExceptT SyntaxError w

/-- A step of the grammar, which moves the cursor and may end in a syntax error. -/
abbrev Parse := ParseIn Walk

namespace Parse

/-- Pass the next token. -/
def advance : ParseIn w Unit := modify Cursor.advance

/-- Complain about the next token. -/
def fail {α : Type} (complaint : Complaint) : ParseIn w α := do
  throw ((← get).errorHere complaint)

/-- Pass a token of the given kind, or complain. -/
def expect (kind : Token.Kind) (complaint : Complaint) : ParseIn w Token := do
  match (← get).current? with
  | some token =>
    if token.kind = kind then
      advance
      return token
    else fail complaint
  | none => fail complaint

/-- Stay at the end of the text, or complain. -/
def expectEnd (complaint : Complaint) : ParseIn w Unit := do
  if (← get).isAtEnd then return () else fail complaint

end Parse

end Steps

end ScriptKit
