import ScriptKit.Grammar.Cursor

/-!
# The grammar

```
declaration := 'var' name ('=' expression)? ';' | statement
statement   := 'print' expression ';'
             | 'if' '(' expression ')' body ('else' body)?
             | 'while' '(' expression ')' body
             | block
             | expression ';'
body        := statement
block       := '{' declaration* '}'
expression  := equality ('=' group)?
equality    := comparison ('==' comparison)*
comparison  := term (('<' | '>') term)*
term        := factor (('+' | '-') factor)*
factor      := primary (('*' | '/' | '%') primary)*
primary     := number | name | '(' group ')'
group       := expression
```

Operators of one row associate to the left. Groups, bodies and blocks are one level further in
than the rule that uses them, and only `maxNesting` levels are allowed. Each rule takes the
`Nested` parsers of the next level, and `nested` builds them level by level, so the recursion of
the grammar is a recursion on the number of levels left. The rules are written for any steps that
keep a cursor, whatever else they keep.
-/

set_option autoImplicit false

namespace ScriptKit.Grammar

open Parse

/-- The parsers of the rules that are one level further in. -/
structure NestedIn (w : Type → Type) where
  /-- An expression inside parentheses or to the right of an assignment mark. -/
  group : ParseIn w Node
  /-- The statement that a condition governs. -/
  body : ParseIn w Node
  /-- Declarations in braces. -/
  block : ParseIn w Node

section Rules

variable {w : Type → Type} [Monad w] [MonadStateOf Cursor w]

/-- A numeral, a variable or a group in parentheses. -/
def primary (inner : NestedIn w) : ParseIn w Node := do
  match (← get).current? with
  | none => fail .expectedExpression
  | some token =>
    match token.kind with
    | .number =>
      advance
      return .literal (.number (Number.ofNumeral token.text)) (some token.line)
    | .name =>
      advance
      return .reference token.text (some token.line)
    | .openParen =>
      advance
      let node ← inner.group
      let _ ← expect .closeParen .unclosedGroup
      return node
    | _ => fail .expectedExpression

/-- Go on with a row of operators after its left part. Each round passes at least one token, so one
round for each token ahead is enough. -/
def chainFrom (operator? : Token.Kind → Option Operator) (operand : ParseIn w Node) :
    List Token → Node → ParseIn w Node
  | [], left => return left
  | _ :: rounds, left => do
    match (← get).current? with
    | none => return left
    | some token =>
      match operator? token.kind with
      | none => return left
      | some op =>
        advance
        let right ← operand
        chainFrom operator? operand rounds (.binary op left right (some token.line))

/-- Operands with operators of one row between them. -/
def chain (operator? : Token.Kind → Option Operator) (operand : ParseIn w Node) :
    ParseIn w Node := do
  let first ← operand
  chainFrom operator? operand (← get).ahead first

/-- The operators that bind tightest. -/
def factorOperator? : Token.Kind → Option Operator
  | .times => some .multiply
  | .divide => some .divide
  | .modulo => some .modulo
  | _ => none

/-- The operators of sums. -/
def termOperator? : Token.Kind → Option Operator
  | .plus => some .add
  | .minus => some .subtract
  | _ => none

/-- The operators of comparison. -/
def comparisonOperator? : Token.Kind → Option Operator
  | .less => some .less
  | .greater => some .greater
  | _ => none

/-- The operator that binds loosest. -/
def equalityOperator? : Token.Kind → Option Operator
  | .equal => some .equal
  | _ => none

/-- A product, quotient or remainder. -/
def factor (inner : NestedIn w) : ParseIn w Node := chain factorOperator? (primary inner)

/-- A sum or difference. -/
def term (inner : NestedIn w) : ParseIn w Node := chain termOperator? (factor inner)

/-- A comparison. -/
def comparison (inner : NestedIn w) : ParseIn w Node := chain comparisonOperator? (term inner)

/-- A test for equality. -/
def equality (inner : NestedIn w) : ParseIn w Node := chain equalityOperator? (comparison inner)

/-- An expression, assignments included. Whether the left side of an assignment is a variable is
looked at only after its right side has been read. -/
def expression (inner : NestedIn w) : ParseIn w Node := do
  let target ← equality inner
  let here ← get
  if here.isAt .assign then
    advance
    let value ← inner.group
    match target with
    | .reference name line => return .assign name value line
    | _ => throw (here.errorHere .invalidTarget)
  else
    return target

/-- An expression and its semicolon. -/
def expressionStatement (inner : NestedIn w) : ParseIn w Node := do
  let line := (← get).line
  let node ← expression inner
  let _ ← expect .semicolon .unendedExpression
  return .evaluate node (some line)

/-- A `print` statement. -/
def printStatement (inner : NestedIn w) : ParseIn w Node := do
  let word ← expect .printWord (.expectedKind .printWord)
  let node ← expression inner
  let _ ← expect .semicolon .unendedPrint
  return .print node (some word.line)

/-- A conditional. An `else` belongs to the nearest `if` that can take it. -/
def ifStatement (inner : NestedIn w) : ParseIn w Node := do
  let word ← expect .ifWord (.expectedKind .ifWord)
  let _ ← expect .openParen .unopenedIf
  let condition ← expression inner
  let _ ← expect .closeParen .unclosedIf
  let thenBranch ← inner.body
  if (← get).isAt .elseWord then
    advance
    let elseBranch ← inner.body
    return .ifElse condition thenBranch elseBranch (some word.line)
  else
    return .ifThen condition thenBranch (some word.line)

/-- A loop. -/
def whileStatement (inner : NestedIn w) : ParseIn w Node := do
  let word ← expect .whileWord (.expectedKind .whileWord)
  let _ ← expect .openParen .unopenedWhile
  let condition ← expression inner
  let _ ← expect .closeParen .unclosedWhile
  let body ← inner.body
  return .loop condition body (some word.line)

/-- A statement. -/
def statement (inner : NestedIn w) : ParseIn w Node := do
  match (← get).current?.map Token.kind with
  | some .printWord => printStatement inner
  | some .ifWord => ifStatement inner
  | some .whileWord => whileStatement inner
  | some .openBrace => inner.block
  | _ => expressionStatement inner

/-- The declaration of a variable. -/
def varDeclaration (inner : NestedIn w) : ParseIn w Node := do
  let word ← expect .varWord (.expectedKind .varWord)
  let name ← expect .name .missingName
  if (← get).isAt .assign then
    advance
    let initial ← expression inner
    let _ ← expect .semicolon .unendedDeclaration
    return .define name.text initial (some word.line)
  else
    let _ ← expect .semicolon .unendedDeclaration
    return .declare name.text (some word.line)

/-- A declaration or a statement. A syntax error inside it is recorded and recovered from. -/
def declaration (inner : NestedIn w) : w Node := do
  let attempt := if (← get).isAt .varWord then varDeclaration inner else statement inner
  match ← attempt.run with
  | .ok node => return node
  | .error error => Walk.markMalformed error

/-- Declarations up to a place where `stop` holds, after those already `done`, the last one first.
Each round passes at least one token, so one round for each token ahead is enough. -/
def declarationsFrom (stop : Cursor → Bool) (declaration : w Node) :
    List Token → List Node → w (List Node)
  | [], done => return done.reverse
  | _ :: rounds, done => do
    if stop (← get) then
      return done.reverse
    else
      let next ← declaration
      declarationsFrom stop declaration rounds (next :: done)

/-- Declarations up to a place where `stop` holds. -/
def declarations (stop : Cursor → Bool) (declaration : w Node) : w (List Node) := do
  declarationsFrom stop declaration (← get).ahead []

/-- Declarations in braces. -/
def braced (declaration : w Node) : ParseIn w Node := do
  let mark ← expect .openBrace (.expectedKind .openBrace)
  let nodes ← (declarations (fun c => c.isAtEnd || c.isAt .closeBrace) declaration : w (List Node))
  let _ ← expect .closeBrace .unclosedBlock
  return .block nodes (some mark.line)

end Rules

/-- The parsers of the next level, for steps that keep a cursor and nothing else. -/
abbrev Nested := NestedIn Walk

/-- The parsers one level further in, where that many levels are left. -/
def nested : Nat → Nested
  | 0 => ⟨fail .nestedTooDeep, fail .nestedTooDeep, fail .nestedTooDeep⟩
  | levels + 1 =>
    let inner := nested levels
    ⟨expression inner, statement inner, braced (declaration inner)⟩

/-- The parsers one level further in than the outermost level. -/
def outermost : Nested := nested maxNesting

/-- A whole program. -/
def program : Walk (List Node) := declarations Cursor.isAtEnd (declaration outermost)

end ScriptKit.Grammar
