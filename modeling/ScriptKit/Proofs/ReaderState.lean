import ScriptKit.Grammar.Reader
import ScriptKit.Proofs.Progress

/-!
# The state of a reader between calls

A reader counts its levels in its state: it raises the count where a rule goes further in, and
lowers it again on every way out. The rules of the grammar that move a bare cursor carry the number
of levels left along instead. `Mirrors` says that a counted step does to the cursor what the bare
one does, gives the count back as it found it and has not counted past `maxNesting` in between, as
long as the levels counted and the levels left make up `maxNesting` together. All rules mirror each
other, so whatever is known of bare cursors holds of readers.

The file ends with what this says of a reader on which rules are called in any order: it stays
within its tokens, never goes back, forgets no error, and has no level open between calls.
-/

set_option autoImplicit false

namespace ScriptKit

open Relation (ReflTransGen)

namespace CountedWalk

variable {α β : Type} {levels : Nat}

/-- The result of a counted walk, and the reader after it. -/
def outcome (walk : CountedWalk α) (reader : Reader) : α × Reader := StateT.run walk reader

/-- A chain of two counted walks goes on with the reader that the first one leaves. -/
theorem outcome_bind (walk : CountedWalk α) (next : α → CountedWalk β) (reader : Reader) :
    outcome (walk >>= next) reader =
      outcome (next (outcome walk reader).1) (outcome walk reader).2 := rfl

/-- Where the levels counted and the levels left make up `maxNesting`, the counted walk does to the
cursor what the bare walk does, and it leaves the count as it was. -/
def Mirrors (levels : Nat) (walk : Walk α) (counted : CountedWalk α) : Prop :=
  ∀ reader : Reader, reader.depth + levels = maxNesting → reader.deepest ≤ maxNesting →
    ∃ deepest ≤ maxNesting, outcome counted reader =
      ((Walk.outcome walk reader.cursor).1,
        ⟨(Walk.outcome walk reader.cursor).2, reader.depth, deepest⟩)

/-- Returning a value counts no level. -/
theorem mirrors_pure (a : α) : Mirrors levels (pure a) (pure a) :=
  fun reader _ hdeepest => ⟨reader.deepest, hdeepest, rfl⟩

/-- Looking at the cursor counts no level. -/
theorem mirrors_get : Mirrors levels get (getThe Cursor) :=
  fun reader _ hdeepest => ⟨reader.deepest, hdeepest, rfl⟩

/-- Leaving a marker counts no level. -/
theorem mirrors_markMalformed (error : SyntaxError) :
    Mirrors levels (Walk.markMalformed error) (Walk.markMalformed error) :=
  fun reader _ hdeepest => ⟨reader.deepest, hdeepest, rfl⟩

/-- Counted walks in a row mirror bare walks in a row. -/
theorem Mirrors.bind {walk : Walk α} {counted : CountedWalk α} {next : α → Walk β}
    {next' : α → CountedWalk β} (h : Mirrors levels walk counted)
    (hnext : ∀ a, Mirrors levels (next a) (next' a)) :
    Mirrors levels (walk >>= next) (counted >>= next') := by
  intro reader hdepth hdeepest
  obtain ⟨middle, hmiddle, hfirst⟩ := h reader hdepth hdeepest
  obtain ⟨last, hlast, hsecond⟩ := hnext (Walk.outcome walk reader.cursor).1
    ⟨(Walk.outcome walk reader.cursor).2, reader.depth, middle⟩ hdepth hmiddle
  refine ⟨last, hlast, ?_⟩
  rw [outcome_bind, hfirst, Walk.outcome_bind]
  exact hsecond

end CountedWalk

namespace CountedParse

open CountedWalk Parse

variable {α β : Type} {levels : Nat}

/-- The same for steps that may end in a syntax error: the errors are the same too, and the count
is given back also where one is raised. -/
def Mirrors (levels : Nat) (action : Parse α) (counted : CountedParse α) : Prop :=
  CountedWalk.Mirrors levels action.run counted.run

/-- Returning a value counts no level. -/
theorem mirrors_pure (a : α) : Mirrors levels (pure a) (pure a) :=
  fun reader _ hdeepest => ⟨reader.deepest, hdeepest, rfl⟩

/-- Giving up counts no level. -/
theorem mirrors_throw (error : SyntaxError) :
    Mirrors levels (throw error : Parse α) (throw error) :=
  fun reader _ hdeepest => ⟨reader.deepest, hdeepest, rfl⟩

/-- Raising a complaint counts no level. -/
theorem mirrors_fail (complaint : Complaint) :
    Mirrors levels (fail complaint : Parse α) (fail complaint) :=
  fun reader _ hdeepest => ⟨reader.deepest, hdeepest, rfl⟩

/-- Moving the cursor counts no level. -/
theorem mirrors_modify (move : Cursor → Cursor) :
    Mirrors levels (modify move) (modifyThe Cursor move) :=
  fun reader _ hdeepest => ⟨reader.deepest, hdeepest, rfl⟩

/-- Passing a token counts no level. -/
theorem mirrors_advance : Mirrors levels advance advance := mirrors_modify Cursor.advance

/-- A walk among steps that may fail. -/
theorem mirrors_lift {walk : Walk α} {counted : CountedWalk α}
    (h : CountedWalk.Mirrors levels walk counted) :
    Mirrors levels (liftM walk : Parse α) (liftM counted) := by
  intro reader hdepth hdeepest
  obtain ⟨deepest, hle, hout⟩ := h reader hdepth hdeepest
  refine ⟨deepest, hle, ?_⟩
  have hlift : CountedWalk.outcome (liftM counted : CountedParse α).run reader =
      (.ok (CountedWalk.outcome counted reader).1, (CountedWalk.outcome counted reader).2) := rfl
  rw [hlift, hout]
  rfl

/-- Counted parsers in a row mirror bare parsers in a row, also where the first one gives up. -/
theorem Mirrors.bind {action : Parse α} {counted : CountedParse α} {next : α → Parse β}
    {next' : α → CountedParse β} (h : Mirrors levels action counted)
    (hnext : ∀ a, Mirrors levels (next a) (next' a)) :
    Mirrors levels (action >>= next) (counted >>= next') := by
  have hboth : CountedWalk.Mirrors levels (action.run >>= ExceptT.bindCont next)
      (counted.run >>= ExceptT.bindCont next') := by
    refine CountedWalk.Mirrors.bind h fun result => ?_
    cases result with
    | error error => exact CountedWalk.mirrors_pure (Except.error error)
    | ok a => exact hnext a
  exact hboth

/-- The cursor that both look at is the same. -/
theorem mirrors_get_bind {next : Cursor → Parse β} {next' : Cursor → CountedParse β}
    (h : ∀ c, Mirrors levels (next c) (next' c)) :
    Mirrors levels (get >>= next) (getThe Cursor >>= next') :=
  Mirrors.bind (mirrors_lift CountedWalk.mirrors_get) h

/-- An expectation counts no level. -/
theorem mirrors_expect (kind : Token.Kind) (complaint : Complaint) :
    Mirrors levels (expect kind complaint) (expect kind complaint) := by
  refine mirrors_get_bind fun c => ?_
  cases c.current? with
  | none => exact mirrors_fail complaint
  | some token =>
    by_cases hkind : token.kind = kind
    · simp only [if_pos hkind]
      exact mirrors_advance.bind fun _ => mirrors_pure token
    · simp only [if_neg hkind]
      exact mirrors_fail complaint

/-- An expectation of the end counts no level. -/
theorem mirrors_expectEnd (complaint : Complaint) :
    Mirrors levels (expectEnd complaint) (expectEnd complaint) := by
  refine mirrors_get_bind fun c => ?_
  cases c.isAtEnd with
  | true => exact mirrors_pure ()
  | false => exact mirrors_fail complaint

end CountedParse

namespace Grammar

open Parse CountedParse

/-- The parsers one level further in mirror each other. -/
structure NestedMirrors (levels : Nat) (inner : Nested) (inner' : NestedIn CountedWalk) : Prop where
  group : Mirrors levels inner.group inner'.group
  body : Mirrors levels inner.body inner'.body
  block : Mirrors levels inner.block inner'.block

variable {levels : Nat} {inner : Nested} {inner' : NestedIn CountedWalk}

/-! ## The rules -/

/-- A primary counts the levels of its group only. -/
theorem mirrors_primary (h : NestedMirrors levels inner inner') :
    Mirrors levels (primary inner) (primary inner') := by
  refine mirrors_get_bind fun c => ?_
  cases c.current? with
  | none => exact mirrors_fail _
  | some token =>
    obtain ⟨kind, text, line⟩ := token
    cases kind with
    | number => exact mirrors_advance.bind fun _ => mirrors_pure _
    | name => exact mirrors_advance.bind fun _ => mirrors_pure _
    | openParen =>
      refine mirrors_advance.bind fun _ => h.group.bind fun node => ?_
      exact (mirrors_expect _ _).bind fun _ => mirrors_pure node
    | _ => exact mirrors_fail _

/-- A row of operators counts the levels of its operands only. -/
theorem mirrors_chainFrom {operand : Parse Node} {operand' : CountedParse Node}
    (operator? : Token.Kind → Option Operator) (h : Mirrors levels operand operand')
    (rounds : List Token) (left : Node) :
    Mirrors levels (chainFrom operator? operand rounds left)
      (chainFrom operator? operand' rounds left) := by
  induction rounds generalizing left with
  | nil => exact mirrors_pure left
  | cons round rounds ih =>
    refine mirrors_get_bind fun c => ?_
    cases c.current? with
    | none => exact mirrors_pure left
    | some token =>
      cases hop : operator? token.kind with
      | none =>
        simp only [hop]
        exact mirrors_pure left
      | some op =>
        simp only [hop]
        exact mirrors_advance.bind fun _ => h.bind fun right => ih _

/-- Operands with operators between them count the levels of the operands only. -/
theorem mirrors_chain {operand : Parse Node} {operand' : CountedParse Node}
    (operator? : Token.Kind → Option Operator) (h : Mirrors levels operand operand') :
    Mirrors levels (chain operator? operand) (chain operator? operand') :=
  h.bind fun first => mirrors_get_bind fun c => mirrors_chainFrom operator? h c.ahead first

/-- Factors are mirrored. -/
theorem mirrors_factor (h : NestedMirrors levels inner inner') :
    Mirrors levels (factor inner) (factor inner') :=
  mirrors_chain _ (mirrors_primary h)

/-- Terms are mirrored. -/
theorem mirrors_term (h : NestedMirrors levels inner inner') :
    Mirrors levels (term inner) (term inner') :=
  mirrors_chain _ (mirrors_factor h)

/-- Comparisons are mirrored. -/
theorem mirrors_comparison (h : NestedMirrors levels inner inner') :
    Mirrors levels (comparison inner) (comparison inner') :=
  mirrors_chain _ (mirrors_term h)

/-- Equalities are mirrored. -/
theorem mirrors_equality (h : NestedMirrors levels inner inner') :
    Mirrors levels (equality inner) (equality inner') :=
  mirrors_chain _ (mirrors_comparison h)

/-- Expressions are mirrored, with one level for the value of an assignment. -/
theorem mirrors_expression (h : NestedMirrors levels inner inner') :
    Mirrors levels (expression inner) (expression inner') := by
  refine (mirrors_equality h).bind fun target => mirrors_get_bind fun here => ?_
  cases here.isAt .assign with
  | true =>
    refine mirrors_advance.bind fun _ => h.group.bind fun value => ?_
    cases target with
    | reference name line => exact mirrors_pure _
    | _ => exact mirrors_throw _
  | false => exact mirrors_pure target

/-- Expressions with the semicolon behind them are mirrored. -/
theorem mirrors_expression_end (h : NestedMirrors levels inner inner') (complaint : Complaint)
    (node : Node → Node) :
    Mirrors levels
      (do
        let value ← expression inner
        let _ ← expect .semicolon complaint
        return node value)
      (do
        let value ← expression inner'
        let _ ← expect .semicolon complaint
        return node value) :=
  (mirrors_expression h).bind fun value =>
    (mirrors_expect _ _).bind fun _ => mirrors_pure (node value)

/-- Statements that evaluate are mirrored. -/
theorem mirrors_expressionStatement (h : NestedMirrors levels inner inner') :
    Mirrors levels (expressionStatement inner) (expressionStatement inner') :=
  mirrors_get_bind fun c =>
    mirrors_expression_end h .unendedExpression fun value => .evaluate value (some c.line)

/-- Statements that print are mirrored. -/
theorem mirrors_printStatement (h : NestedMirrors levels inner inner') :
    Mirrors levels (printStatement inner) (printStatement inner') :=
  (mirrors_expect _ _).bind fun word =>
    mirrors_expression_end h .unendedPrint fun value => .print value (some word.line)

/-- Conditionals are mirrored, with one level for each branch. -/
theorem mirrors_ifStatement (h : NestedMirrors levels inner inner') :
    Mirrors levels (ifStatement inner) (ifStatement inner') := by
  refine (mirrors_expect _ _).bind fun word => (mirrors_expect _ _).bind fun _ => ?_
  refine (mirrors_expression h).bind fun condition => (mirrors_expect _ _).bind fun _ => ?_
  refine h.body.bind fun thenBranch => mirrors_get_bind fun c => ?_
  cases c.isAt .elseWord with
  | true => exact mirrors_advance.bind fun _ => h.body.bind fun elseBranch => mirrors_pure _
  | false => exact mirrors_pure _

/-- Loops are mirrored, with one level for the body. -/
theorem mirrors_whileStatement (h : NestedMirrors levels inner inner') :
    Mirrors levels (whileStatement inner) (whileStatement inner') := by
  refine (mirrors_expect _ _).bind fun word => (mirrors_expect _ _).bind fun _ => ?_
  refine (mirrors_expression h).bind fun condition => (mirrors_expect _ _).bind fun _ => ?_
  exact h.body.bind fun body => mirrors_pure _

/-- Statements are mirrored, whichever rule their first token selects. -/
theorem mirrors_statement (h : NestedMirrors levels inner inner') :
    Mirrors levels (statement inner) (statement inner') := by
  refine mirrors_get_bind fun c => ?_
  cases c.current?.map Token.kind with
  | none => exact mirrors_expressionStatement h
  | some kind =>
    cases kind with
    | printWord => exact mirrors_printStatement h
    | ifWord => exact mirrors_ifStatement h
    | whileWord => exact mirrors_whileStatement h
    | openBrace => exact h.block
    | _ => exact mirrors_expressionStatement h

/-- Declarations of variables are mirrored. -/
theorem mirrors_varDeclaration (h : NestedMirrors levels inner inner') :
    Mirrors levels (varDeclaration inner) (varDeclaration inner') := by
  refine (mirrors_expect _ _).bind fun word => (mirrors_expect _ _).bind fun name => ?_
  refine mirrors_get_bind fun c => ?_
  cases c.isAt .assign with
  | true =>
    exact mirrors_advance.bind fun _ => mirrors_expression_end h .unendedDeclaration fun initial =>
      .define name.text initial (some word.line)
  | false => exact (mirrors_expect _ _).bind fun _ => mirrors_pure _

/-- Declarations are mirrored, also where they end in a marker. -/
theorem mirrors_declaration (h : NestedMirrors levels inner inner') :
    CountedWalk.Mirrors levels (declaration inner) (declaration inner') := by
  refine CountedWalk.Mirrors.bind CountedWalk.mirrors_get fun c => ?_
  have hattempt : Mirrors levels
      (if c.isAt .varWord then varDeclaration inner else statement inner)
      (if c.isAt .varWord then varDeclaration inner' else statement inner') := by
    split_ifs
    · exact mirrors_varDeclaration h
    · exact mirrors_statement h
  refine CountedWalk.Mirrors.bind hattempt fun result => ?_
  cases result with
  | ok node => exact CountedWalk.mirrors_pure node
  | error error => exact CountedWalk.mirrors_markMalformed error

/-- Lists of declarations are mirrored. -/
theorem mirrors_declarations (stop : Cursor → Bool) (h : NestedMirrors levels inner inner') :
    CountedWalk.Mirrors levels (declarations stop (declaration inner))
      (declarations stop (declaration inner')) := by
  have hfrom (rounds : List Token) (done : List Node) :
      CountedWalk.Mirrors levels (declarationsFrom stop (declaration inner) rounds done)
        (declarationsFrom stop (declaration inner') rounds done) := by
    induction rounds generalizing done with
    | nil => exact CountedWalk.mirrors_pure _
    | cons round rounds ih =>
      refine CountedWalk.Mirrors.bind CountedWalk.mirrors_get fun c => ?_
      cases stop c with
      | true => exact CountedWalk.mirrors_pure _
      | false => exact CountedWalk.Mirrors.bind (mirrors_declaration h) fun node => ih _
  exact CountedWalk.Mirrors.bind CountedWalk.mirrors_get fun c => hfrom c.ahead []

/-- Blocks are mirrored up to the level that they take. -/
theorem mirrors_braced (h : NestedMirrors levels inner inner') :
    Mirrors levels (braced (declaration inner)) (braced (declaration inner')) := by
  refine (mirrors_expect _ _).bind fun mark => ?_
  refine (mirrors_lift (mirrors_declarations _ h)).bind fun nodes => ?_
  exact (mirrors_expect _ _).bind fun _ => mirrors_pure _

/-! ## Levels -/

/-- Whatever becomes of the step, the level is closed behind it. -/
theorem outcome_finally_leave (action : CountedParse Node) (reader : Reader) :
    CountedWalk.outcome (try action finally modifyThe Reader Reader.leave : CountedParse Node).run
        reader =
      ((CountedWalk.outcome action.run reader).1,
        (CountedWalk.outcome action.run reader).2.leave) := by
  -- The step is asked once, so a step that always answers as it does here can take its place.
  let answer : CountedParse Node := fun _ => CountedWalk.outcome action.run reader
  have hanswer : CountedWalk.outcome
      (try action finally modifyThe Reader Reader.leave : CountedParse Node).run reader =
      CountedWalk.outcome
        (try answer finally modifyThe Reader Reader.leave : CountedParse Node).run reader := rfl
  rw [hanswer]
  simp only [answer]
  rcases CountedWalk.outcome action.run reader with ⟨_ | _, _⟩
  · rfl
  · rfl

/-- One level further in, the count goes up and comes down again; where no level is left, the rule
is not begun. -/
theorem outcome_deeper (action : CountedParse Node) (reader : Reader) :
    CountedWalk.outcome (deeper action).run reader =
      if reader.depth < maxNesting then
        ((CountedWalk.outcome action.run reader.enter).1,
          (CountedWalk.outcome action.run reader.enter).2.leave)
      else (.error (reader.cursor.errorHere .nestedTooDeep), reader) := by
  have hopen : CountedWalk.outcome (deeper action).run reader =
      CountedWalk.outcome (if reader.depth < maxNesting then
        (do
          modifyThe Reader Reader.enter
          try action finally modifyThe Reader Reader.leave)
        else fail .nestedTooDeep : CountedParse Node).run reader := rfl
  rw [hopen]
  split_ifs
  · exact outcome_finally_leave action reader.enter
  · rfl

/-- A rule that is mirrored is so one level further in, where one level more is left. -/
theorem mirrors_deeper {action : Parse Node} {counted : CountedParse Node}
    (h : Mirrors levels action counted) : Mirrors (levels + 1) action (deeper counted) := by
  intro reader hdepth hdeepest
  have hlt : reader.depth < maxNesting := by omega
  have henter : reader.enter.depth + levels = maxNesting := by
    simp only [Reader.enter]
    omega
  have hmax : reader.enter.deepest ≤ maxNesting := Nat.max_le.mpr ⟨hdeepest, hlt⟩
  obtain ⟨deepest, hle, hout⟩ := h reader.enter henter hmax
  refine ⟨deepest, hle, ?_⟩
  rw [outcome_deeper, if_pos hlt, hout]
  rfl

/-- Where no level is left, counting refuses what the bare parsers refuse. -/
theorem mirrors_deeper_refused (counted : CountedParse Node) :
    Mirrors 0 (fail .nestedTooDeep) (deeper counted) := by
  intro reader hdepth hdeepest
  refine ⟨reader.deepest, hdeepest, ?_⟩
  rw [outcome_deeper, if_neg (by omega)]
  rfl

/-- The parsers of every level are mirrored, by induction on the levels that are left. -/
theorem nestedMirrors (levels : Nat) : NestedMirrors levels (nested levels) (counted levels) := by
  induction levels with
  | zero =>
    exact ⟨mirrors_deeper_refused _, mirrors_deeper_refused _, mirrors_deeper_refused _⟩
  | succ levels ih =>
    exact ⟨mirrors_deeper (mirrors_expression ih), mirrors_deeper (mirrors_statement ih),
      mirrors_deeper (mirrors_braced ih)⟩

end Grammar

namespace Cursor

/-- Passing tokens that are ahead is a number of steps. -/
theorem steps_behind {c : Cursor} {tokens rest : List Token} (h : c.ahead = tokens ++ rest) :
    Steps c (c.behind tokens rest) := by
  induction tokens generalizing c with
  | nil =>
    obtain ⟨file, passed, ahead, endLine, errors⟩ := c
    subst h
    exact .refl
  | cons token tokens ih =>
    have hfirst : Step c (c.behind [token] (tokens ++ rest)) := advance_of_ahead h ▸ Step.pass c
    have hmore := ih (ahead_behind c [token] (tokens ++ rest))
    rw [behind_behind] at hmore
    exact ReflTransGen.head hfirst hmore

/-- The way to the next place where a statement may begin leads past single tokens. -/
theorem steps_resume (c : Cursor) : Steps c c.resume := by
  cases hahead : c.ahead with
  | nil =>
    have hstays : c.resume = c.behind [] [] := by
      simp [resume, advance, hahead, passStatement, behind]
    rw [hstays]
    exact steps_behind hahead
  | cons token rest =>
    obtain ⟨skipped, after, rfl, hpass⟩ := exists_passStatement (token :: c.passed) rest
    have hresume : c.resume = c.behind (token :: skipped) after := by
      simp [resume, advance, hahead, hpass, behind]
    rw [hresume]
    exact steps_behind hahead

end Cursor

namespace Call

open Cursor Parse Grammar CountedParse

/-! ## Calls -/

/-- An answer takes the steps of the rule that gives it. -/
theorem follows_answering {action : Parse Node} (h : Follows Step action) :
    Follows Step (answering action) :=
  h.bind fun _ => followsAt_pure _

/-- Eating a token by its label takes at most the step past it. -/
theorem follows_eatLabel (label message : String) : Follows Step (eatLabel label message) := by
  unfold eatLabel
  cases Token.Kind.ofLabel? label with
  | some kind => exact (follows_expect _ _).bind fun _ => followsAt_pure _
  | none =>
    by_cases hend : label = "EOF"
    · simp only [if_pos hend]
      refine Follows.bind (fun c => followsAt_get_bind ?_) fun _ => followsAt_pure _
      cases c.isAtEnd with
      | true => exact followsAt_pure () c
      | false => exact followsAt_fail _ c
    · simp only [if_neg hend]
      exact followsAt_fail _

/-- Every call takes steps of the grammar. -/
theorem follows_rule (levels : Nat) (call : Call) : Follows Step (call.rule (nested levels)) := by
  have h := nestedFollows levels
  cases call with
  | advance => exact fun c => ReflTransGen.single (Step.pass c)
  | eat label message => exact follows_eatLabel label message
  | resume => exact steps_resume
  | primary => exact follows_answering (follows_primary h.group).toStep
  | factor => exact follows_answering (follows_operandAt h.group 1).toStep
  | term => exact follows_answering (follows_operandAt h.group 2).toStep
  | comparison => exact follows_answering (follows_operandAt h.group 3).toStep
  | equality => exact follows_answering (follows_operandAt h.group 4).toStep
  | expression => exact follows_answering (follows_expression h.group).toStep
  | group => exact follows_answering h.group.toStep
  | statement => exact follows_answering (strides_statement h).follows
  | declaration => exact follows_answering (steps_declaration h)
  | body => exact follows_answering h.body
  | block => exact follows_answering h.block.follows
  | varDeclaration => exact follows_answering (strides_varDeclaration h).follows
  | printStatement => exact follows_answering (strides_printStatement h).follows
  | ifStatement => exact follows_answering (strides_ifStatement h).follows
  | whileStatement => exact follows_answering (strides_whileStatement h).follows
  | expressionStatement => exact follows_answering (strides_expressionStatement h).follows
  | program => exact steps_declarations isAtEnd h

section Mirrors

variable {levels : Nat} {inner : Nested} {inner' : NestedIn CountedWalk}

/-- An answer counts the levels of the rule that gives it. -/
theorem mirrors_answering {action : Parse Node} {counted : CountedParse Node}
    (h : Mirrors levels action counted) : Mirrors levels (answering action) (answering counted) :=
  h.bind fun _ => mirrors_pure _

/-- Eating a token by its label counts no level. -/
theorem mirrors_eatLabel (label message : String) :
    Mirrors levels (eatLabel label message) (eatLabel label message) := by
  unfold eatLabel
  cases Token.Kind.ofLabel? label with
  | some kind => exact (mirrors_expect _ _).bind fun _ => mirrors_pure _
  | none =>
    by_cases hend : label = "EOF"
    · simp only [if_pos hend]
      exact (mirrors_expectEnd _).bind fun _ => mirrors_pure _
    · simp only [if_neg hend]
      exact mirrors_fail _

/-- The rule of each call is mirrored. -/
theorem mirrors_rule (h : NestedMirrors levels inner inner') (call : Call) :
    Mirrors levels (call.rule inner) (call.rule inner') := by
  cases call with
  | advance => exact mirrors_get_bind fun c => mirrors_advance.bind fun _ => mirrors_pure _
  | eat label message => exact mirrors_eatLabel label message
  | resume => exact (mirrors_modify Cursor.resume).bind fun _ => mirrors_pure _
  | primary => exact mirrors_answering (mirrors_primary h)
  | factor => exact mirrors_answering (mirrors_factor h)
  | term => exact mirrors_answering (mirrors_term h)
  | comparison => exact mirrors_answering (mirrors_comparison h)
  | equality => exact mirrors_answering (mirrors_equality h)
  | expression => exact mirrors_answering (mirrors_expression h)
  | group => exact mirrors_answering h.group
  | statement => exact mirrors_answering (mirrors_statement h)
  | declaration => exact mirrors_answering (mirrors_lift (mirrors_declaration h))
  | body => exact mirrors_answering h.body
  | block => exact mirrors_answering h.block
  | varDeclaration => exact mirrors_answering (mirrors_varDeclaration h)
  | printStatement => exact mirrors_answering (mirrors_printStatement h)
  | ifStatement => exact mirrors_answering (mirrors_ifStatement h)
  | whileStatement => exact mirrors_answering (mirrors_whileStatement h)
  | expressionStatement => exact mirrors_answering (mirrors_expressionStatement h)
  | program => exact (mirrors_lift (mirrors_declarations _ h)).bind fun _ => mirrors_pure _

end Mirrors

end Call

namespace TokenList

/-- The tokens, with the end of the text as a last place behind them. -/
def withEnd (tokens : TokenList) : List (Option Token) := tokens.tokens.map some ++ [none]

end TokenList

namespace Reader

open Cursor Parse Grammar

/-- A reader between calls: no level is open, there were never more than `maxNesting`, and its
cursor has moved on from the first one. -/
structure Ready (first : Cursor) (reader : Reader) : Prop where
  depth_eq : reader.depth = 0
  deepest_le : reader.deepest ≤ maxNesting
  moves : ∃ tokens found, first.Moves tokens found reader.cursor

/-- A reader that was not called yet is ready. -/
theorem ready_start (file : Option String) (tokens : TokenList) :
    (start file tokens).Ready (Cursor.start file tokens) :=
  ⟨rfl, Nat.zero_le _, [], [], Moves.refl _⟩

variable {first : Cursor} {reader : Reader}

/-- Between calls a call does to the cursor what the rule does that carries its levels along. -/
theorem Ready.call_eq (h : reader.Ready first) (call : Call) :
    ∃ deepest ≤ maxNesting, reader.call call =
      ((outcome (call.rule outermost) reader.cursor).1,
        ⟨(outcome (call.rule outermost) reader.cursor).2, 0, deepest⟩) := by
  obtain ⟨deepest, hle, hout⟩ := call.mirrors_rule (nestedMirrors maxNesting) reader
    (by rw [h.depth_eq, Nat.zero_add]) h.deepest_le
  rw [h.depth_eq] at hout
  exact ⟨deepest, hle, hout⟩

/-- A call moves the cursor on, whether it is answered or refused. -/
theorem Ready.exists_moves_call (h : reader.Ready first) (call : Call) :
    ∃ tokens found, reader.cursor.Moves tokens found (reader.call call).2.cursor := by
  obtain ⟨deepest, -, hcall⟩ := h.call_eq call
  rw [hcall]
  exact Steps.exists_moves ((call.follows_rule maxNesting).steps rfl)

/-- One call keeps a reader ready. -/
theorem Ready.call (h : reader.Ready first) (call : Call) : (reader.call call).2.Ready first := by
  obtain ⟨tokens, found, hbefore⟩ := h.moves
  obtain ⟨tokens', found', hmoves⟩ := h.exists_moves_call call
  obtain ⟨deepest, hle, hcall⟩ := h.call_eq call
  refine ⟨by rw [hcall], by rw [hcall]; exact hle, _, _, hbefore.trans hmoves⟩

/-- So do any number of calls. -/
theorem Ready.afterCalls (h : reader.Ready first) (calls : List Call) :
    (reader.afterCalls calls).Ready first := by
  induction calls generalizing reader with
  | nil => exact h
  | cons call calls ih => exact ih (h.call call)

/-- A cursor that has moved on from the beginning is at one of the tokens or at the end. -/
theorem getElem?_withEnd_of_moves {file : Option String} {tokens : TokenList}
    {passed : List Token} {found : List SyntaxError} {c : Cursor}
    (h : (Cursor.start file tokens).Moves passed found c) :
    tokens.withEnd[c.position]? = some c.current? := by
  have htokens : tokens.tokens = passed ++ c.ahead := h.ahead
  have hposition : c.position = passed.length := h.position_eq.trans (Nat.zero_add _)
  rw [TokenList.withEnd, htokens, hposition]
  cases hahead : c.ahead with
  | nil => simp [current?_of_ahead_nil hahead]
  | cons token rest => simp [current?_of_ahead hahead]

/-- What a call does to a reader of the tokens, whether it is answered or refused. -/
structure Endures (tokens : TokenList) (before : Reader) (call : Call) : Prop where
  position_lt : (before.call call).2.cursor.position < tokens.withEnd.length
  current_eq : tokens.withEnd[(before.call call).2.cursor.position]? =
    some (before.call call).2.cursor.current?
  position_le : before.cursor.position ≤ (before.call call).2.cursor.position
  depth_eq : (before.call call).2.depth = before.depth
  depth_eq_zero : before.depth = 0
  deepest_le : (before.call call).2.deepest ≤ maxNesting
  errors_prefix : before.cursor.errors.toList <+: (before.call call).2.cursor.errors.toList
  outcome_eq : ((before.call call).1, (before.call call).2.cursor) =
    outcome (call.rule outermost) before.cursor

/-- Whatever was called on a reader before, after one more call its cursor is at one of the tokens
or at the end, and not further back. Between calls no level is open, and during the calls there
were never more than `maxNesting`. No error is forgotten. The outcome is that of the rule which
carries its levels along, so what is known of the one holds of the other. -/
theorem endures_calls (file : Option String) (tokens : TokenList) (calls : List Call)
    (call : Call) : Endures tokens ((start file tokens).afterCalls calls) call := by
  have hready := (ready_start file tokens).afterCalls calls
  have hready' := hready.call call
  obtain ⟨deepest, -, hcall⟩ := hready.call_eq call
  obtain ⟨passed, found, hmoves⟩ := hready.exists_moves_call call
  obtain ⟨passed', found', hmoves'⟩ := hready'.moves
  have hcurrent := getElem?_withEnd_of_moves hmoves'
  refine ⟨?_, hcurrent, ?_, ?_, hready.depth_eq, hready'.deepest_le, ?_, ?_⟩
  · exact (List.getElem?_eq_some_iff.mp hcurrent).1
  · rw [hmoves.position_eq]
    exact Nat.le_add_right _ _
  · rw [hready'.depth_eq, hready.depth_eq]
  · exact ⟨found, hmoves.errors.symm⟩
  · rw [hcall]

/-- The bound is reached: of 49 parentheses the last one is refused. -/
example : ((start none ⟨List.replicate 49 ⟨.openParen, "(", 1⟩, 1⟩).call .primary).2.deepest =
    maxNesting := by decide +kernel

end Reader

end ScriptKit
