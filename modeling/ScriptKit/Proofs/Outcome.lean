import Mathlib
import ScriptKit.Program

/-!
# What an action does to a cursor

A `Walk` or `Parse` action is a function on cursors, written as a chain of smaller actions.
`outcome` applies it to a cursor, and the lemmas of this file say what that gives for each link of
a chain. The rules of the grammar are read through these lemmas only; nothing after this file looks
at how the two monads are built.

`Cursor.behind` is the one way in which successful rules move a cursor: some tokens are passed,
nothing else changes.
-/

set_option autoImplicit false

namespace ScriptKit

namespace Cursor

/-- The cursor behind the given tokens and in front of the others. -/
def behind (c : Cursor) (tokens rest : List Token) : Cursor :=
  { c with passed := tokens.reverse ++ c.passed, ahead := rest }

/-- Behind the tokens, what is left is ahead. -/
@[simp] theorem ahead_behind (c : Cursor) (tokens rest : List Token) :
    (c.behind tokens rest).ahead = rest := rfl

/-- Behind the tokens, they count as passed, the last one first. -/
@[simp] theorem passed_behind (c : Cursor) (tokens rest : List Token) :
    (c.behind tokens rest).passed = tokens.reverse ++ c.passed := rfl

/-- Passing tokens records no error. -/
@[simp] theorem errors_behind (c : Cursor) (tokens rest : List Token) :
    (c.behind tokens rest).errors = c.errors := rfl

/-- Passing tokens does not change the name of the text. -/
@[simp] theorem file_behind (c : Cursor) (tokens rest : List Token) :
    (c.behind tokens rest).file = c.file := rfl

/-- Passing tokens does not change where the text ends. -/
@[simp] theorem endLine_behind (c : Cursor) (tokens rest : List Token) :
    (c.behind tokens rest).endLine = c.endLine := rfl

/-- Tokens may be passed in two portions. -/
@[simp] theorem behind_behind (c : Cursor) (first second rest rest' : List Token) :
    (c.behind first rest).behind second rest' = c.behind (first ++ second) rest' := by
  simp [behind]

/-- Where a token is ahead, an advance passes it. -/
theorem advance_of_ahead {c : Cursor} {token : Token} {rest : List Token}
    (h : c.ahead = token :: rest) : c.advance = c.behind [token] rest := by
  simp [advance, behind, h]

/-- At the end of the text an advance does nothing. -/
theorem advance_of_ahead_nil {c : Cursor} (h : c.ahead = []) : c.advance = c := by
  simp [advance, h]

/-- The current token is the first one ahead. -/
theorem current?_of_ahead {c : Cursor} {token : Token} {rest : List Token}
    (h : c.ahead = token :: rest) : c.current? = some token := by
  simp [current?, h]

/-- At the end of the text there is no current token. -/
theorem current?_of_ahead_nil {c : Cursor} (h : c.ahead = []) : c.current? = none := by
  simp [current?, h]

/-- The line of a cursor is that of the first token ahead. -/
theorem line_of_ahead {c : Cursor} {token : Token} {rest : List Token}
    (h : c.ahead = token :: rest) : c.line = token.line := by
  simp [line, current?_of_ahead h]

/-- A cursor in front of a token is at its kind and at no other. -/
theorem isAt_of_ahead {c : Cursor} {token : Token} {rest : List Token} (kind : Token.Kind)
    (h : c.ahead = token :: rest) : c.isAt kind = decide (token.kind = kind) := by
  simp [isAt, current?_of_ahead h]

/-- At the end of the text a cursor is at no kind of token. -/
theorem isAt_of_ahead_nil {c : Cursor} (kind : Token.Kind) (h : c.ahead = []) :
    c.isAt kind = false := by
  simp [isAt, current?_of_ahead_nil h]

/-- Which kinds a cursor is at depends on the kind of the next token only. -/
theorem isAt_eq_head (c : Cursor) (kind : Token.Kind) :
    c.isAt kind = decide (c.ahead.head?.map Token.kind = some kind) := by
  cases h : c.ahead with
  | nil => simp [isAt_of_ahead_nil kind h]
  | cons token rest => simp [isAt_of_ahead kind h]

/-- A cursor at a kind has a token of that kind in front of it. -/
theorem exists_ahead_of_isAt {c : Cursor} {kind : Token.Kind} (h : c.isAt kind = true) :
    ∃ token rest, c.ahead = token :: rest ∧ token.kind = kind := by
  cases hahead : c.ahead with
  | nil => simp [isAt_of_ahead_nil kind hahead] at h
  | cons token rest =>
    rw [isAt_of_ahead kind hahead, decide_eq_true_eq] at h
    exact ⟨token, rest, rfl, h⟩

/-- The cursor after an error was recorded and the malformed statement was passed. -/
def recover (c : Cursor) (error : SyntaxError) : Cursor :=
  { c with errors := c.errors.push error }.resume

end Cursor

/-- The marker that stands for the statement an error was found in. -/
def SyntaxError.marker (file : Option String) (error : SyntaxError) : Node :=
  .skipped (error.report file).message (some error.line)

namespace Walk

/-- The result of a walk, and the cursor after it. -/
def outcome {α : Type} (walk : Walk α) (c : Cursor) : α × Cursor := walk.run c

/-- A walk that only returns a value leaves the cursor where it is. -/
@[simp] theorem outcome_pure {α : Type} (a : α) (c : Cursor) : outcome (pure a) c = (a, c) := rfl

/-- A walk may look at the cursor without moving it. -/
@[simp] theorem outcome_get (c : Cursor) : outcome get c = (c, c) := rfl

/-- A chain of two walks starts the second where the first one ends. -/
theorem outcome_bind {α β : Type} (walk : Walk α) (next : α → Walk β) (c : Cursor) :
    outcome (walk >>= next) c = outcome (next (outcome walk c).1) (outcome walk c).2 := rfl

/-- Marking a malformed statement recovers from its error. -/
theorem outcome_markMalformed (error : SyntaxError) (c : Cursor) :
    outcome (markMalformed error) c = (error.marker c.file, c.recover error) := rfl

end Walk

namespace Parse

/-- The result of a parse action or its syntax error, and the cursor after it. -/
def outcome {α : Type} (action : Parse α) (c : Cursor) : Except SyntaxError α × Cursor :=
  Walk.outcome action.run c

/-- A parser that only returns a value succeeds and leaves the cursor where it is. -/
@[simp] theorem outcome_pure {α : Type} (a : α) (c : Cursor) :
    outcome (pure a) c = (.ok a, c) := rfl

/-- A parser may look at the cursor without moving it. -/
@[simp] theorem outcome_get (c : Cursor) : outcome get c = (.ok c, c) := rfl

/-- An advance always succeeds. -/
@[simp] theorem outcome_advance (c : Cursor) : outcome advance c = (.ok (), c.advance) := rfl

/-- A parser that gives up leaves the cursor where it is. -/
@[simp] theorem outcome_throw {α : Type} (error : SyntaxError) (c : Cursor) :
    outcome (throw error : Parse α) c = (.error error, c) := rfl

/-- A complaint is raised as an error at the cursor, which stays where it is. -/
@[simp] theorem outcome_fail {α : Type} (complaint : Complaint) (c : Cursor) :
    outcome (fail complaint : Parse α) c = (.error (c.errorHere complaint), c) := rfl

/-- A chain of two actions ends early if the first one fails. -/
theorem outcome_bind {α β : Type} (action : Parse α) (next : α → Parse β) (c : Cursor) :
    outcome (action >>= next) c =
      match outcome action c with
      | (.ok a, m) => outcome (next a) m
      | (.error error, m) => (.error error, m) := by
  simp only [outcome, Walk.outcome, ExceptT.run_bind, StateT.run_bind]
  generalize StateT.run (ExceptT.run action) c = result
  obtain ⟨result, m⟩ := result
  cases result <;> rfl

/-- After a parser that succeeds, the next one starts where it stopped. -/
theorem outcome_bind_of_ok {α β : Type} {action : Parse α} {next : α → Parse β} {c m : Cursor}
    {a : α} (h : outcome action c = (.ok a, m)) :
    outcome (action >>= next) c = outcome (next a) m := by
  rw [outcome_bind, h]

/-- After a parser that gives up, the next one does not start. -/
theorem outcome_bind_of_error {α β : Type} {action : Parse α} {next : α → Parse β} {c m : Cursor}
    {error : SyntaxError} (h : outcome action c = (.error error, m)) :
    outcome (action >>= next) c = (.error error, m) := by
  rw [outcome_bind, h]

/-- A chain succeeds exactly if both of its actions do. -/
theorem outcome_bind_eq_ok {α β : Type} {action : Parse α} {next : α → Parse β} {c c' : Cursor}
    {b : β} :
    outcome (action >>= next) c = (.ok b, c') ↔
      ∃ a m, outcome action c = (.ok a, m) ∧ outcome (next a) m = (.ok b, c') := by
  rw [outcome_bind]
  obtain ⟨result, m⟩ := outcome action c
  cases result <;> simp

/-- Looking at the cursor does not move it. -/
@[simp] theorem outcome_get_bind {β : Type} (next : Cursor → Parse β) (c : Cursor) :
    outcome (get >>= next) c = outcome (next c) c := outcome_bind_of_ok (outcome_get c)

/-- After an advance the next parser starts one token further on. -/
@[simp] theorem outcome_advance_bind {β : Type} (next : Unit → Parse β) (c : Cursor) :
    outcome (advance >>= next) c = outcome (next ()) c.advance :=
  outcome_bind_of_ok (outcome_advance c)

/-- A token of the expected kind is passed. -/
theorem outcome_expect_of_ahead {c : Cursor} {token : Token} {rest : List Token}
    (complaint : Complaint) (h : c.ahead = token :: rest) :
    outcome (expect token.kind complaint) c = (.ok token, c.behind [token] rest) := by
  rw [expect, outcome_get_bind, Cursor.current?_of_ahead h]
  simp only [if_true, outcome_advance_bind, outcome_pure, Cursor.advance_of_ahead h]

/-- At any other token, and at the end, the expectation is disappointed on the spot. -/
theorem outcome_expect_of_not_isAt {c : Cursor} {kind : Token.Kind} (complaint : Complaint)
    (h : c.isAt kind = false) :
    outcome (expect kind complaint) c = (.error (c.errorHere complaint), c) := by
  rw [expect, outcome_get_bind]
  cases hahead : c.ahead with
  | nil => simp only [Cursor.current?_of_ahead_nil hahead, outcome_fail]
  | cons token rest =>
    rw [Cursor.isAt_of_ahead kind hahead, decide_eq_false_iff_not] at h
    simp only [Cursor.current?_of_ahead hahead, if_neg h, outcome_fail]

/-- What an expectation returns is the token that was ahead, and that alone is passed. -/
theorem ahead_of_outcome_expect {c c' : Cursor} {kind : Token.Kind} {complaint : Complaint}
    {token : Token} (h : outcome (expect kind complaint) c = (.ok token, c')) :
    token.kind = kind ∧ c.ahead = token :: c'.ahead ∧ c' = c.behind [token] c'.ahead := by
  cases hat : c.isAt kind with
  | false => simp [outcome_expect_of_not_isAt complaint hat] at h
  | true =>
    obtain ⟨next, rest, hahead, rfl⟩ := Cursor.exists_ahead_of_isAt hat
    rw [outcome_expect_of_ahead complaint hahead] at h
    simp only [Prod.mk.injEq, Except.ok.injEq] at h
    obtain ⟨rfl, rfl⟩ := h
    exact ⟨rfl, hahead, rfl⟩

end Parse

namespace Grammar

open Parse

/-- At a number the primary is a literal of it. -/
theorem outcome_primary_of_number {inner : Nested} {c : Cursor} {token : Token}
    {rest : List Token} (h : c.ahead = token :: rest) (hkind : token.kind = .number) :
    outcome (primary inner) c =
      (.ok (.literal (.number (Number.ofNumeral token.text)) (some token.line)),
        c.behind [token] rest) := by
  rw [primary, outcome_get_bind, Cursor.current?_of_ahead h]
  simp only [hkind, outcome_advance_bind, outcome_pure, Cursor.advance_of_ahead h]

/-- At a name the primary is a reference to the variable. -/
theorem outcome_primary_of_name {inner : Nested} {c : Cursor} {token : Token}
    {rest : List Token} (h : c.ahead = token :: rest) (hkind : token.kind = .name) :
    outcome (primary inner) c =
      (.ok (.reference token.text (some token.line)), c.behind [token] rest) := by
  rw [primary, outcome_get_bind, Cursor.current?_of_ahead h]
  simp only [hkind, outcome_advance_bind, outcome_pure, Cursor.advance_of_ahead h]

/-- At an opening parenthesis the primary is a group, which has to be closed. -/
theorem outcome_primary_of_openParen {inner : Nested} {c : Cursor} {token : Token}
    {rest : List Token} (h : c.ahead = token :: rest) (hkind : token.kind = .openParen) :
    outcome (primary inner) c =
      outcome (do
        let node ← inner.group
        let _ ← expect .closeParen .unclosedGroup
        return node) (c.behind [token] rest) := by
  rw [primary, outcome_get_bind, Cursor.current?_of_ahead h]
  simp only [hkind, outcome_advance_bind, Cursor.advance_of_ahead h]

/-- No other token begins a primary, and none is passed in the attempt. -/
theorem outcome_primary_of_other {inner : Nested} {c : Cursor} (hnumber : c.isAt .number = false)
    (hname : c.isAt .name = false) (hparen : c.isAt .openParen = false) :
    outcome (primary inner) c = (.error (c.errorHere .expectedExpression), c) := by
  rw [primary, outcome_get_bind]
  cases hahead : c.ahead with
  | nil => rw [Cursor.current?_of_ahead_nil hahead, outcome_fail]
  | cons token rest =>
    simp only [Cursor.isAt_of_ahead _ hahead, decide_eq_false_iff_not] at hnumber hname hparen
    rw [Cursor.current?_of_ahead hahead]
    split <;> simp_all

/-- The assignment of a value to a target, which has to be a variable. -/
def assignment? (target value : Node) : Option Node :=
  match target with
  | .reference name line => some (.assign name value line)
  | _ => none

/-- An assignment that is built assigns the value to some name. -/
theorem exists_of_assignment?_eq_some {target value node : Node}
    (h : assignment? target value = some node) :
    ∃ name line, node = .assign name value line := by
  cases target with
  | reference name line => exact ⟨name, line, (Option.some.inj h).symm⟩
  | _ => simp [assignment?] at h

/-- An expression behind its left part. -/
def assignRest (inner : Nested) (target : Node) : Parse Node := do
  let here ← get
  if here.isAt .assign then
    advance
    let value ← inner.group
    match target with
    | .reference name line => return .assign name value line
    | _ => throw (here.errorHere .invalidTarget)
  else
    return target

/-- An expression is an operand of the loosest row and what an assignment mark makes of it. -/
theorem expression_eq_assignRest (inner : Nested) :
    expression inner = equality inner >>= assignRest inner := rfl

/-- Without an assignment mark the operand is the whole expression. -/
theorem outcome_assignRest_of_not_assign {inner : Nested} {m : Cursor} (target : Node)
    (hmark : m.isAt .assign = false) :
    outcome (assignRest inner target) m = (.ok target, m) := by
  rw [assignRest, outcome_get_bind, hmark]
  rfl

/-- Behind an assignment mark the value is read first; only then is the target looked at. -/
theorem outcome_assignRest_of_assign {inner : Nested} {m : Cursor} (target : Node)
    {mark : Token} {rest : List Token} (hahead : m.ahead = mark :: rest)
    (hmark : mark.kind = .assign) :
    outcome (assignRest inner target) m =
      match outcome inner.group (m.behind [mark] rest) with
      | (.error error, c') => (.error error, c')
      | (.ok value, c') =>
        match assignment? target value with
        | some node => (.ok node, c')
        | none => (.error (m.errorHere .invalidTarget), c') := by
  have hat : m.isAt .assign = true := by simp [Cursor.isAt_of_ahead _ hahead, hmark]
  rw [assignRest, outcome_get_bind, hat]
  simp only [if_true, outcome_advance_bind, Cursor.advance_of_ahead hahead]
  rw [outcome_bind]
  rcases outcome inner.group (m.behind [mark] rest) with ⟨_ | value, c'⟩
  · rfl
  · cases target <;> rfl

/-- Which rule a statement follows is decided by the next token. -/
theorem outcome_statement (inner : Nested) (c : Cursor) :
    outcome (statement inner) c =
      if c.isAt .printWord then outcome (printStatement inner) c
      else if c.isAt .ifWord then outcome (ifStatement inner) c
      else if c.isAt .whileWord then outcome (whileStatement inner) c
      else if c.isAt .openBrace then outcome inner.block c
      else outcome (expressionStatement inner) c := by
  rw [statement, outcome_get_bind]
  cases hahead : c.ahead with
  | nil =>
    simp only [Cursor.isAt_of_ahead_nil _ hahead, Cursor.current?_of_ahead_nil hahead]
    rfl
  | cons token rest =>
    simp only [Cursor.isAt_of_ahead _ hahead, Cursor.current?_of_ahead hahead, Option.map_some]
    cases token.kind <;> rfl

/-- The statement or variable declaration that a declaration tries to read. -/
def attempt (inner : Nested) : Parse Node := do
  if (← get).isAt .varWord then varDeclaration inner else statement inner

/-- An attempt at a declaration is decided by its first token: `var` or a statement. -/
theorem outcome_attempt (inner : Nested) (c : Cursor) :
    outcome (attempt inner) c =
      outcome (if c.isAt .varWord then varDeclaration inner else statement inner) c := by
  rw [attempt, outcome_get_bind]

/-- A declaration makes the same attempt. -/
theorem outcome_run_of_attempt {inner : Nested} {c m : Cursor} {result : Except SyntaxError Node}
    (h : outcome (attempt inner) c = (result, m)) :
    Walk.outcome (if c.isAt .varWord then varDeclaration inner else statement inner).run c =
      (result, m) := by
  rw [outcome_attempt] at h
  exact h

/-- An attempt that succeeds is the declaration. -/
theorem outcome_declaration_of_ok {inner : Nested} {c m : Cursor} {node : Node}
    (h : outcome (attempt inner) c = (.ok node, m)) :
    Walk.outcome (declaration inner) c = (node, m) := by
  rw [declaration, Walk.outcome_bind, Walk.outcome_get, Walk.outcome_bind,
    outcome_run_of_attempt h]
  rfl

/-- An attempt that fails leaves a marker, and the reader recovers from its error. -/
theorem outcome_declaration_of_error {inner : Nested} {c m : Cursor} {error : SyntaxError}
    (h : outcome (attempt inner) c = (.error error, m)) :
    Walk.outcome (declaration inner) c = (error.marker m.file, m.recover error) := by
  rw [declaration, Walk.outcome_bind, Walk.outcome_get, Walk.outcome_bind,
    outcome_run_of_attempt h]
  exact Walk.outcome_markMalformed error m

/-- A row of operators ends where no operator of the row follows. -/
theorem outcome_chainFrom_of_none {operator? : Token.Kind → Option Operator}
    {operand : Parse Node} {c : Cursor} (rounds : List Token) (left : Node)
    (h : c.ahead.head?.bind (operator? ·.kind) = none) :
    outcome (chainFrom operator? operand rounds left) c = (.ok left, c) := by
  cases rounds with
  | nil => rfl
  | cons round rounds =>
    rw [chainFrom, outcome_get_bind]
    cases hahead : c.ahead with
    | nil => simp only [Cursor.current?_of_ahead_nil hahead, outcome_pure]
    | cons token rest =>
      rw [hahead] at h
      simp only [List.head?_cons, Option.bind_some] at h
      simp only [Cursor.current?_of_ahead hahead, h, outcome_pure]

/-- A chain goes on past an operator of its row, with the operation so far as the left operand. -/
theorem outcome_chainFrom_of_some {operator? : Token.Kind → Option Operator}
    {operand : Parse Node} {c : Cursor} {token : Token} {rest : List Token} {op : Operator}
    (round : Token) (rounds : List Token) (left : Node) (h : c.ahead = token :: rest)
    (hop : operator? token.kind = some op) :
    outcome (chainFrom operator? operand (round :: rounds) left) c =
      outcome (do
        let right ← operand
        chainFrom operator? operand rounds (.binary op left right (some token.line)))
        (c.behind [token] rest) := by
  rw [chainFrom, outcome_get_bind]
  simp only [Cursor.current?_of_ahead h, hop, outcome_advance_bind, Cursor.advance_of_ahead h]

/-- A round of a list of declarations either ends it or reads one declaration more. -/
theorem outcome_declarationsFrom_cons (stop : Cursor → Bool) (declaration : Walk Node)
    (round : Token) (rounds : List Token) (done : List Node) (c : Cursor) :
    Walk.outcome (declarationsFrom stop declaration (round :: rounds) done) c =
      if stop c then (done.reverse, c)
      else Walk.outcome
        (declarationsFrom stop declaration rounds ((Walk.outcome declaration c).1 :: done))
        (Walk.outcome declaration c).2 := by
  have hround : Walk.outcome (declarationsFrom stop declaration (round :: rounds) done) c =
      Walk.outcome
        (if stop c then pure done.reverse
          else do
            let next ← declaration
            declarationsFrom stop declaration rounds (next :: done)) c := rfl
  rw [hround]
  split_ifs <;> rfl

/-- Where the declarations in braces end. -/
abbrev blockEnd (c : Cursor) : Bool := c.isAtEnd || c.isAt .closeBrace

/-- Behind an opening brace stand declarations and then a closing one. -/
theorem outcome_braced_of_ahead {declaration : Walk Node} {c : Cursor} {mark : Token}
    {rest : List Token} (h : c.ahead = mark :: rest) (hkind : mark.kind = .openBrace) :
    outcome (braced declaration) c =
      outcome (do
        let _ ← expect .closeBrace .unclosedBlock
        return .block (Walk.outcome (declarations blockEnd declaration) (c.behind [mark] rest)).1
          (some mark.line))
        (Walk.outcome (declarations blockEnd declaration) (c.behind [mark] rest)).2 := by
  have hmark := outcome_expect_of_ahead (.expectedKind .openBrace) h
  rw [hkind] at hmark
  rw [braced, outcome_bind_of_ok hmark]
  rfl

/-- Without an opening brace no block is read, and nothing is passed. -/
theorem outcome_braced_of_not_isAt {declaration : Walk Node} {c : Cursor}
    (h : c.isAt .openBrace = false) :
    outcome (braced declaration) c = (.error (c.errorHere (.expectedKind .openBrace)), c) :=
  outcome_bind_of_error (outcome_expect_of_not_isAt _ h)

end Grammar

end ScriptKit
