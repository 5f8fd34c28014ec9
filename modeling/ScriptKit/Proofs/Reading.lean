import ScriptKit.Proofs.Segments

/-!
# What was read, whatever went wrong

A text with syntax errors gives a tree, too. `Reads` says how a statement was read that was not
given up: which tokens were passed, where an expression was read, and what was read inside. In a
block statements may have been given up, and their markers stand for them. So what holds of every
tree, with markers or without, is an induction over `Reads`, and the rules are walked here once.
-/

set_option autoImplicit false

namespace ScriptKit

namespace Grammar

open Cursor Parse

/-- Does a statement begin here that is no expression? -/
def opensStatement (c : Cursor) : Bool :=
  c.isAt .printWord || c.isAt .ifWord || c.isAt .whileWord || c.isAt .openBrace

/-- What is read: a statement, a declaration, or declarations in a row up to a place where the
condition holds. -/
inductive Yield where
  | statement (node : Node)
  | declaration (node : Node)
  | declarations (stop : Cursor → Bool) (nodes : List Node)

/-- How something was read between two cursors, where that many levels were left. -/
inductive Reads : Nat → Cursor → Yield → Cursor → Prop where
  | print {levels : Nat} {c m m' c' : Cursor} {value : Node} (word : Terminal .printWord)
      (semicolon : Terminal .semicolon) (hword : c.Moves [word.val] [] m)
      (hvalue : outcome (expression (nested levels)) m = (.ok value, m'))
      (hend : m'.Moves [semicolon.val] [] c') :
      Reads levels c (.statement (.print value (some word.val.line))) c'
  | evaluate {levels : Nat} {c m c' : Cursor} {value : Node} (semicolon : Terminal .semicolon)
      (hopens : opensStatement c = false)
      (hvalue : outcome (expression (nested levels)) c = (.ok value, m))
      (hend : m.Moves [semicolon.val] [] c') :
      Reads levels c (.statement (.evaluate value (some c.line))) c'
  | declare {levels : Nat} {c c' : Cursor} (word : Terminal .varWord) (name : Terminal .name)
      (semicolon : Terminal .semicolon)
      (hmoves : c.Moves [word.val, name.val, semicolon.val] [] c') :
      Reads levels c (.declaration (.declare name.val.text (some word.val.line))) c'
  | define {levels : Nat} {c m m' c' : Cursor} {initial : Node} (word : Terminal .varWord)
      (name : Terminal .name) (mark : Terminal .assign) (semicolon : Terminal .semicolon)
      (hstart : c.Moves [word.val, name.val, mark.val] [] m)
      (hinitial : outcome (expression (nested levels)) m = (.ok initial, m'))
      (hend : m'.Moves [semicolon.val] [] c') :
      Reads levels c (.declaration (.define name.val.text initial (some word.val.line))) c'
  | plain {levels : Nat} {c c' : Cursor} {node : Node} (hvar : c.isAt .varWord = false)
      (hstatement : Reads levels c (.statement node) c') : Reads levels c (.declaration node) c'
  | ifThen {levels : Nat} {c m₁ m₂ m₃ c' : Cursor} {condition thenBranch : Node}
      (word : Terminal .ifWord) (opening : Terminal .openParen) (closing : Terminal .closeParen)
      (hstart : c.Moves [word.val, opening.val] [] m₁)
      (hcondition : outcome (expression (nested (levels + 1))) m₁ = (.ok condition, m₂))
      (hclosing : m₂.Moves [closing.val] [] m₃)
      (hthen : Reads levels m₃ (.statement thenBranch) c') :
      Reads (levels + 1) c (.statement (.ifThen condition thenBranch (some word.val.line))) c'
  | ifElse {levels : Nat} {c m₁ m₂ m₃ m₄ m₅ c' : Cursor} {condition thenBranch elseBranch : Node}
      (word : Terminal .ifWord) (opening : Terminal .openParen) (closing : Terminal .closeParen)
      (otherwise : Terminal .elseWord) (hstart : c.Moves [word.val, opening.val] [] m₁)
      (hcondition : outcome (expression (nested (levels + 1))) m₁ = (.ok condition, m₂))
      (hclosing : m₂.Moves [closing.val] [] m₃)
      (hout : outcome (nested (levels + 1)).body m₃ = (.ok thenBranch, m₄))
      (hthen : Reads levels m₃ (.statement thenBranch) m₄)
      (hmiddle : m₄.Moves [otherwise.val] [] m₅)
      (helse : Reads levels m₅ (.statement elseBranch) c') :
      Reads (levels + 1) c
        (.statement (.ifElse condition thenBranch elseBranch (some word.val.line))) c'
  | loop {levels : Nat} {c m₁ m₂ m₃ c' : Cursor} {condition body : Node}
      (word : Terminal .whileWord) (opening : Terminal .openParen)
      (closing : Terminal .closeParen) (hstart : c.Moves [word.val, opening.val] [] m₁)
      (hcondition : outcome (expression (nested (levels + 1))) m₁ = (.ok condition, m₂))
      (hclosing : m₂.Moves [closing.val] [] m₃) (hbody : Reads levels m₃ (.statement body) c') :
      Reads (levels + 1) c (.statement (.loop condition body (some word.val.line))) c'
  | block {levels : Nat} {c m m' c' : Cursor} {nodes : List Node} (opening : Terminal .openBrace)
      (closing : Terminal .closeBrace) (hfirst : c.Moves [opening.val] [] m)
      (hinner : Reads levels m (.declarations blockEnd nodes) m')
      (hlast : m'.Moves [closing.val] [] c') :
      Reads (levels + 1) c (.statement (.block nodes (some opening.val.line))) c'
  | done {levels : Nat} {c : Cursor} {stop : Cursor → Bool} (hstop : stop c = true) :
      Reads levels c (.declarations stop []) c
  | next {levels : Nat} {c m c' : Cursor} {stop : Cursor → Bool} {node : Node}
      {nodes : List Node} (hgoes : stop c = false)
      (hout : Walk.outcome (declaration (nested levels)) c = (node, m))
      (hfirst : Reads levels c (.declaration node) m)
      (hrest : Reads levels m (.declarations stop nodes) c') :
      Reads levels c (.declarations stop (node :: nodes)) c'
  | giveUp {levels : Nat} {c m c' : Cursor} {stop : Cursor → Bool} {error : SyntaxError}
      {tokens : List Token} {found : List SyntaxError} {nodes : List Node}
      (hgoes : stop c = false)
      (hout : Walk.outcome (declaration (nested levels)) c =
        (error.marker m.file, m.recover error))
      (hmoves : c.Moves tokens found m)
      (hrest : Reads levels (m.recover error) (.declarations stop nodes) c') :
      Reads levels c (.declarations stop (error.marker m.file :: nodes)) c'

section Ahead

variable {levels : Nat} {c c' : Cursor} {node : Node}

/-- What an expression is read from, the grammar derives. -/
theorem derives_of_outcome_expression
    (hout : outcome (expression (nested levels)) c = (.ok node, c')) :
    Derives levels .expression node c c' :=
  derives_expression (nestedFollows levels).group (nestedDerives levels) hout

/-- A move goes forward. -/
theorem suffix_of_moves {tokens : List Token} {found : List SyntaxError}
    (h : c.Moves tokens found c') : c'.ahead <:+ c.ahead :=
  ⟨tokens, h.ahead.symm⟩

/-- An expression leaves an end of what was ahead. -/
theorem suffix_of_outcome_expression
    (hout : outcome (expression (nested levels)) c = (.ok node, c')) : c'.ahead <:+ c.ahead := by
  obtain ⟨d, -, -, hmoves⟩ := derives_of_outcome_expression hout
  exact suffix_of_moves hmoves

/-- An expression with tokens in front of it and behind it. -/
theorem suffix_around_expression {m m' : Cursor} {front back : List Token}
    {found found' : List SyntaxError} (hfront : c.Moves front found m)
    (hout : outcome (expression (nested levels)) m = (.ok node, m'))
    (hback : m'.Moves back found' c') : c'.ahead <:+ c.ahead :=
  (suffix_of_moves hback).trans ((suffix_of_outcome_expression hout).trans (suffix_of_moves hfront))

/-- Recovery leaves an end of what was ahead. -/
theorem suffix_recover (c : Cursor) (error : SyntaxError) :
    (c.recover error).ahead <:+ c.ahead := by
  obtain ⟨tokens, hmoves, -⟩ := exists_moves_recover c error
  exact suffix_of_moves hmoves

/-- Reading goes forward. -/
theorem Reads.suffix {yield : Yield} (h : Reads levels c yield c') : c'.ahead <:+ c.ahead := by
  induction h with
  | print _ _ hword hvalue hend =>
    exact (suffix_of_moves hend).trans
      ((suffix_of_outcome_expression hvalue).trans (suffix_of_moves hword))
  | evaluate _ _ hvalue hend =>
    exact (suffix_of_moves hend).trans (suffix_of_outcome_expression hvalue)
  | declare _ _ _ hmoves => exact suffix_of_moves hmoves
  | define _ _ _ _ hstart hinitial hend =>
    exact (suffix_of_moves hend).trans
      ((suffix_of_outcome_expression hinitial).trans (suffix_of_moves hstart))
  | plain _ _ hstatement => exact hstatement
  | ifThen _ _ _ hstart hcondition hclosing _ hthen =>
    exact hthen.trans ((suffix_of_moves hclosing).trans
      ((suffix_of_outcome_expression hcondition).trans (suffix_of_moves hstart)))
  | ifElse _ _ _ _ hstart hcondition hclosing _ _ hmiddle _ hthen helse =>
    have hbranch := (suffix_of_moves hclosing).trans
      ((suffix_of_outcome_expression hcondition).trans (suffix_of_moves hstart))
    exact helse.trans ((suffix_of_moves hmiddle).trans (hthen.trans hbranch))
  | loop _ _ _ hstart hcondition hclosing _ hbody =>
    exact hbody.trans ((suffix_of_moves hclosing).trans
      ((suffix_of_outcome_expression hcondition).trans (suffix_of_moves hstart)))
  | block _ _ hfirst _ hlast hinner =>
    exact (suffix_of_moves hlast).trans (hinner.trans (suffix_of_moves hfirst))
  | done => exact List.suffix_refl _
  | next _ _ _ _ hfirst hrest => exact hrest.trans hfirst
  | giveUp _ _ hmoves _ hrest =>
    exact hrest.trans ((suffix_recover _ _).trans (suffix_of_moves hmoves))

end Ahead

/-- The parsers one level further in read statements, at their levels. -/
structure NestedReads (levels : Nat) : Prop where
  body : ∀ {c c' : Cursor} {node : Node}, outcome (nested levels).body c = (.ok node, c') →
    ∃ deeper, levels = deeper + 1 ∧ Reads deeper c (.statement node) c'
  block : ∀ {c c' : Cursor} {node : Node}, outcome (nested levels).block c = (.ok node, c') →
    Reads levels c (.statement node) c'

section Rules

variable {levels : Nat} {inner : Nested} {c c' : Cursor} {node : Node}

/-- An expression with an expected token behind it. -/
theorem exists_of_expression_end {β : Type} {kind : Token.Kind} {complaint : Complaint}
    {next : Node → Parse β} {b : β}
    (hout : outcome (do
      let value ← expression inner
      let _ ← expect kind complaint
      next value) c = (.ok b, c')) :
    ∃ (value : Node) (token : Terminal kind) (m m' : Cursor),
      outcome (expression inner) c = (.ok value, m) ∧ m.Moves [token.val] [] m' ∧
        outcome (next value) m' = (.ok b, c') := by
  obtain ⟨value, m, hvalue, hout⟩ := outcome_bind_eq_ok.mp hout
  obtain ⟨token, m', htoken, hout⟩ := outcome_bind_eq_ok.mp hout
  obtain ⟨terminal, -, hend⟩ := exists_terminal_of_outcome_expect htoken
  exact ⟨value, terminal, m, m', hvalue, hend, hout⟩

/-- A keyword with a condition in parentheses behind it. -/
theorem exists_of_condition {β : Type} {kind : Token.Kind}
    {complaint complaint' complaint'' : Complaint} {next : Token → Node → Parse β} {b : β}
    (hout : outcome (do
      let word ← expect kind complaint
      let _ ← expect .openParen complaint'
      let condition ← expression inner
      let _ ← expect .closeParen complaint''
      next word condition) c = (.ok b, c')) :
    ∃ (word : Terminal kind) (opening : Terminal .openParen) (condition : Node)
      (closing : Terminal .closeParen) (m₁ m₂ m₃ : Cursor),
      c.Moves [word.val, opening.val] [] m₁ ∧
      outcome (expression inner) m₁ = (.ok condition, m₂) ∧ m₂.Moves [closing.val] [] m₃ ∧
      outcome (next word.val condition) m₃ = (.ok b, c') := by
  obtain ⟨token, m, hword, hout⟩ := outcome_bind_eq_ok.mp hout
  obtain ⟨token', m₁, hopening, hout⟩ := outcome_bind_eq_ok.mp hout
  obtain ⟨word, rfl, hfirst⟩ := exists_terminal_of_outcome_expect hword
  obtain ⟨opening, rfl, hsecond⟩ := exists_terminal_of_outcome_expect hopening
  obtain ⟨condition, closing, m₂, m₃, hcondition, hclosing, hout⟩ := exists_of_expression_end hout
  exact ⟨word, opening, condition, closing, m₁, m₂, m₃, hfirst.trans hsecond, hcondition, hclosing,
    hout⟩

/-- A statement that prints is read as one. -/
theorem reads_printStatement (hout : outcome (printStatement (nested levels)) c = (.ok node, c')) :
    Reads levels c (.statement node) c' := by
  obtain ⟨token, m, hword, hout⟩ := outcome_bind_eq_ok.mp hout
  obtain ⟨word, rfl, hstart⟩ := exists_terminal_of_outcome_expect hword
  obtain ⟨value, semicolon, m', m'', hvalue, hend, hout⟩ := exists_of_expression_end hout
  rw [outcome_pure, Prod.mk.injEq, Except.ok.injEq] at hout
  obtain ⟨rfl, rfl⟩ := hout
  exact .print word semicolon hstart hvalue hend

/-- Where no word begins a statement, an expression with a semicolon is read as one. -/
theorem reads_expressionStatement (hopens : opensStatement c = false)
    (hout : outcome (expressionStatement (nested levels)) c = (.ok node, c')) :
    Reads levels c (.statement node) c' := by
  rw [expressionStatement, outcome_get_bind] at hout
  obtain ⟨value, semicolon, m, m', hvalue, hend, hout⟩ := exists_of_expression_end hout
  rw [outcome_pure, Prod.mk.injEq, Except.ok.injEq] at hout
  obtain ⟨rfl, rfl⟩ := hout
  exact .evaluate semicolon hopens hvalue hend

/-- A declaration of a variable is read as one, with or without an initial value. -/
theorem reads_varDeclaration (hout : outcome (varDeclaration (nested levels)) c = (.ok node, c')) :
    Reads levels c (.declaration node) c' := by
  obtain ⟨token, m, hword, hout⟩ := outcome_bind_eq_ok.mp hout
  obtain ⟨token', m', hname, hout⟩ := outcome_bind_eq_ok.mp hout
  obtain ⟨word, rfl, hfirst⟩ := exists_terminal_of_outcome_expect hword
  obtain ⟨name, rfl, hsecond⟩ := exists_terminal_of_outcome_expect hname
  rw [outcome_get_bind] at hout
  cases hmark : m'.isAt .assign with
  | false =>
    rw [hmark, if_neg (by decide)] at hout
    obtain ⟨token, m'', hend, hout⟩ := outcome_bind_eq_ok.mp hout
    obtain ⟨semicolon, rfl, hthird⟩ := exists_terminal_of_outcome_expect hend
    rw [outcome_pure, Prod.mk.injEq, Except.ok.injEq] at hout
    obtain ⟨rfl, rfl⟩ := hout
    exact .declare word name semicolon ((hfirst.trans hsecond).trans hthird)
  | true =>
    obtain ⟨mark, rest, hahead, hthird⟩ := exists_terminal_of_isAt hmark
    rw [hmark, if_pos rfl, outcome_advance_bind, advance_of_ahead hahead] at hout
    obtain ⟨initial, semicolon, m₂, m₃, hinitial, hend, hout⟩ := exists_of_expression_end hout
    rw [outcome_pure, Prod.mk.injEq, Except.ok.injEq] at hout
    obtain ⟨rfl, rfl⟩ := hout
    exact .define word name mark semicolon ((hfirst.trans hsecond).trans hthird) hinitial hend

/-- A loop is read as its condition and its body, which stands one level further in. -/
theorem reads_whileStatement (h : NestedReads levels)
    (hout : outcome (whileStatement (nested levels)) c = (.ok node, c')) :
    Reads levels c (.statement node) c' := by
  obtain ⟨word, opening, condition, closing, m₁, m₂, m₃, hstart, hcondition, hclosing, hout⟩ :=
    exists_of_condition hout
  obtain ⟨body, m₄, hbody, hout⟩ := outcome_bind_eq_ok.mp hout
  rw [outcome_pure, Prod.mk.injEq, Except.ok.injEq] at hout
  obtain ⟨rfl, rfl⟩ := hout
  obtain ⟨deeper, rfl, hreads⟩ := h.body hbody
  exact .loop word opening closing hstart hcondition hclosing hreads

/-- A conditional is read as its condition and its branches, which stand one level further in. -/
theorem reads_ifStatement (h : NestedReads levels)
    (hout : outcome (ifStatement (nested levels)) c = (.ok node, c')) :
    Reads levels c (.statement node) c' := by
  obtain ⟨word, opening, condition, closing, m₁, m₂, m₃, hstart, hcondition, hclosing, hout⟩ :=
    exists_of_condition hout
  obtain ⟨thenBranch, m₄, hthen, hout⟩ := outcome_bind_eq_ok.mp hout
  obtain ⟨deeper, hlevels, hthenReads⟩ := h.body hthen
  rw [outcome_get_bind] at hout
  cases helse : m₄.isAt .elseWord with
  | false =>
    rw [helse, if_neg (by decide), outcome_pure, Prod.mk.injEq, Except.ok.injEq] at hout
    obtain ⟨rfl, rfl⟩ := hout
    subst hlevels
    exact .ifThen word opening closing hstart hcondition hclosing hthenReads
  | true =>
    obtain ⟨otherwise, rest, hahead, hmiddle⟩ := exists_terminal_of_isAt helse
    rw [helse, if_pos rfl, outcome_advance_bind, advance_of_ahead hahead] at hout
    obtain ⟨elseBranch, m₅, helseBranch, hout⟩ := outcome_bind_eq_ok.mp hout
    rw [outcome_pure, Prod.mk.injEq, Except.ok.injEq] at hout
    obtain ⟨rfl, rfl⟩ := hout
    obtain ⟨deeper', hlevels', helseReads⟩ := h.body helseBranch
    obtain rfl : deeper = deeper' := by omega
    subst hlevels
    exact .ifElse word opening closing otherwise hstart hcondition hclosing hthen hthenReads hmiddle
      helseReads

/-- Whatever the rule for statements returns was read as a statement. -/
theorem reads_statement (h : NestedReads levels)
    (hout : outcome (statement (nested levels)) c = (.ok node, c')) :
    Reads levels c (.statement node) c' := by
  rw [outcome_statement] at hout
  split_ifs at hout with hprint hif hwhile hbrace
  · exact reads_printStatement hout
  · exact reads_ifStatement h hout
  · exact reads_whileStatement h hout
  · exact h.block hout
  · refine reads_expressionStatement ?_ hout
    simp [opensStatement, hprint, hif, hwhile, hbrace]

/-- Whatever an attempt at a declaration returns was read as a declaration. -/
theorem reads_attempt (h : NestedReads levels)
    (hout : outcome (attempt (nested levels)) c = (.ok node, c')) :
    Reads levels c (.declaration node) c' := by
  rw [outcome_attempt] at hout
  split_ifs at hout with hvar
  · exact reads_varDeclaration hout
  · exact .plain (by simpa using hvar) (reads_statement h hout)

/-- Round after round, a declaration is read or given up. -/
theorem Rounds.reads {stop : Cursor → Bool} {parts : List (List Token × Node)}
    (h : NestedReads levels) (hrounds : Rounds stop (declaration (nested levels)) c parts c') :
    Reads levels c (.declarations stop (parts.map Prod.snd)) c' := by
  induction hrounds with
  | done hstop => exact .done hstop
  | @next c m _ _ _ node _ hgoes hout _ _ ih =>
    rcases hattempt : outcome (attempt (nested levels)) c with ⟨error | read, m'⟩
    · have hdeclaration := outcome_declaration_of_error hattempt
      rw [hout, Prod.mk.injEq] at hdeclaration
      obtain ⟨rfl, rfl⟩ := hdeclaration
      obtain ⟨tokens, found, hmoves⟩ :=
        Steps.exists_moves ((strides_attempt (nestedFollows levels)).follows.steps hattempt)
      exact .giveUp hgoes hout hmoves ih
    · have hdeclaration := outcome_declaration_of_ok hattempt
      rw [hout, Prod.mk.injEq] at hdeclaration
      obtain ⟨rfl, rfl⟩ := hdeclaration
      exact .next hgoes hout (reads_attempt h hattempt) ih

/-- Whatever a list of declarations returns was read one after the other, with markers for what was
given up. -/
theorem reads_declarations {stop : Cursor → Bool} {nodes : List Node} (h : NestedReads levels)
    (hend : EndsList stop)
    (hout : Walk.outcome (declarations stop (declaration (nested levels))) c = (nodes, c')) :
    Reads levels c (.declarations stop nodes) c' := by
  obtain ⟨parts, last, hrounds, hlist⟩ := exists_rounds (nestedFollows levels) hend c
  rw [hout, Prod.mk.injEq] at hlist
  obtain ⟨rfl, rfl⟩ := hlist
  exact hrounds.reads h

/-- A block is read as the declarations between its braces. -/
theorem reads_braced (h : NestedReads levels)
    (hout : outcome (braced (declaration (nested levels))) c = (.ok node, c')) :
    Reads (levels + 1) c (.statement node) c' := by
  cases hmark : c.isAt .openBrace with
  | false => simp [outcome_braced_of_not_isAt hmark] at hout
  | true =>
    obtain ⟨opening, rest, hahead, hfirst⟩ := exists_terminal_of_isAt hmark
    rcases hlist : Walk.outcome (declarations blockEnd (declaration (nested levels)))
      (c.behind [opening.val] rest) with ⟨nodes, m⟩
    rw [outcome_braced_of_ahead hahead opening.property, hlist] at hout
    obtain ⟨token, m', hclosing, hout⟩ := outcome_bind_eq_ok.mp hout
    obtain ⟨closing, -, hlast⟩ := exists_terminal_of_outcome_expect hclosing
    rw [outcome_pure, Prod.mk.injEq, Except.ok.injEq] at hout
    obtain ⟨rfl, rfl⟩ := hout
    exact .block opening closing hfirst (reads_declarations h endsList_blockEnd hlist) hlast

end Rules

/-- The parsers of every level read statements. -/
theorem nestedReads (levels : Nat) : NestedReads levels := by
  induction levels with
  | zero => exact ⟨fun hout => by simp [nested] at hout, fun hout => by simp [nested] at hout⟩
  | succ levels ih =>
    exact ⟨fun hout => ⟨levels, rfl, reads_statement ih hout⟩, reads_braced ih⟩

end Grammar

namespace Program

open Cursor Grammar

/-- The statements of a program are declarations in a row, read from all of its tokens. -/
theorem reads_ofTokens (file : Option String) (tokens : TokenList) :
    ∃ c', Reads maxNesting (Cursor.start file tokens)
      (.declarations isAtEnd (ofTokens file tokens).statements) c' := by
  refine ⟨(Walk.outcome program (Cursor.start file tokens)).2, ?_⟩
  apply reads_declarations (nestedReads maxNesting) endsList_isAtEnd
  rw [statements_ofTokens]
  rfl

end Program

end ScriptKit
