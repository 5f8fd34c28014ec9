import ScriptKit.Proofs.GrammarCorrect
import ScriptKit.Proofs.Resemblance

/-!
# One malformed statement

A statement without braces ends at its first semicolon. If it breaks the grammar, then the error is
found at one of its tokens, at the semicolon at the latest: the rules for expressions stop in front
of it, and a rule that gets past it has read a whole declaration. Recovery then goes on to the
first token behind the semicolon, and what follows is read as if it stood alone.
-/

set_option autoImplicit false

namespace ScriptKit

/-- May a token of this kind stand inside a statement, neither ending it nor beginning another? -/
def Token.Kind.staysInside (kind : Token.Kind) : Bool :=
  !(kind.startsStatement || [.semicolon, .openBrace, .closeBrace].contains kind)

namespace Cursor

variable {after : List Token} {c m m' : Cursor}

/-- In front of what is left of a statement: tokens inside it, then its semicolon. -/
def Within (after : List Token) (c : Cursor) : Prop :=
  ∃ inside semicolon, c.ahead = inside ++ semicolon :: after ∧ semicolon.kind = .semicolon ∧
    ∀ token ∈ inside, token.kind.staysInside = true

/-- From the first cursor one comes to the second, which is within the statement, and records
nothing. -/
def Remains (after : List Token) (c m : Cursor) : Prop :=
  ∃ tokens, c.Moves tokens [] m ∧ m.Within after

/-- A cursor within the statement remains there without a move. -/
theorem Within.remains (h : c.Within after) : Remains after c c := ⟨[], Moves.refl c, h⟩

/-- What remains after a move within the statement remains from its beginning. -/
theorem Remains.of_moves {tokens : List Token} (h : c.Moves tokens [] m)
    (h' : Remains after m m') : Remains after c m' := by
  obtain ⟨tokens', hmoves, hwithin⟩ := h'
  exact ⟨tokens ++ tokens', h.trans hmoves, hwithin⟩

/-- Passing a token that is no semicolon does not leave the statement. -/
theorem Within.pass (h : c.Within after) {token : Token} {rest : List Token}
    (hahead : c.ahead = token :: rest) (hkind : token.kind ≠ .semicolon) :
    (c.behind [token] rest).Within after := by
  obtain ⟨inside, semicolon, hc, hsemicolon, hinside⟩ := h
  cases inside with
  | nil =>
    rw [hahead, List.nil_append, List.cons.injEq] at hc
    obtain ⟨rfl, rfl⟩ := hc
    exact absurd hsemicolon hkind
  | cons first inside =>
    rw [hahead, List.cons_append, List.cons.injEq] at hc
    obtain ⟨rfl, rfl⟩ := hc
    exact ⟨inside, semicolon, rfl, hsemicolon, fun other hother => hinside other (by simp [hother])⟩

/-- Expressions hold no semicolon, so their rules remain within the statement. -/
theorem Within.glides (h : c.Within after) (hglides : Glides c m) : Remains after c m := by
  obtain ⟨tokens, hmoves, -⟩ := Glides.exists_moves hglides
  refine ⟨tokens, hmoves, ?_⟩
  clear hmoves
  induction hglides with
  | refl => exact h
  | tail _ hglide ih =>
    cases hglide with
    | pass hahead hkind =>
      rw [advance_of_ahead hahead]
      refine ih.pass hahead fun hsemicolon => ?_
      rw [hsemicolon] at hkind
      cases hkind

/-- Within a statement the next semicolon is its last token. -/
theorem Within.ahead_of_isAt_semicolon (h : c.Within after) (hat : c.isAt .semicolon = true) :
    ∃ semicolon : Grammar.Terminal .semicolon, c.ahead = semicolon.val :: after := by
  obtain ⟨inside, semicolon, hc, hsemicolon, hinside⟩ := h
  cases inside with
  | nil => exact ⟨⟨semicolon, hsemicolon⟩, hc⟩
  | cons first inside =>
    rw [isAt_of_ahead _ hc, decide_eq_true_eq] at hat
    have hstays := hinside first (by simp)
    rw [hat] at hstays
    cases hstays

/-- Within a statement no other one begins. -/
theorem Within.isAt_eq_false (h : c.Within after) {kind : Token.Kind}
    (hkind : kind ≠ .semicolon) (hstays : kind.staysInside = false) : c.isAt kind = false := by
  obtain ⟨inside, semicolon, hc, hsemicolon, hinside⟩ := h
  cases inside with
  | nil =>
    rw [isAt_of_ahead _ hc, hsemicolon, decide_eq_false_iff_not]
    exact hkind.symm
  | cons first inside =>
    rw [isAt_of_ahead _ hc, decide_eq_false_iff_not]
    rintro rfl
    simp [hinside first (by simp)] at hstays

/-- The way to the next statement leads behind the semicolon. -/
theorem passStatement_of_within {inside passed : List Token} {semicolon : Token}
    (hlast : passed.head?.any (·.kind = .semicolon) = false)
    (hsemicolon : semicolon.kind = .semicolon)
    (hinside : ∀ token ∈ inside, token.kind.staysInside = true) :
    (passStatement passed (inside ++ semicolon :: after)).2 = after := by
  have hstarts : semicolon.kind.startsStatement = false := by
    rw [hsemicolon]
    rfl
  induction inside generalizing passed with
  | nil =>
    rw [List.nil_append, passStatement, hlast, hstarts, if_neg (by simp)]
    cases after with
    | nil => rfl
    | cons token rest => rw [passStatement, if_pos (by simp [hsemicolon])]
  | cons first inside ih =>
    have hfirst := hinside first (by simp)
    simp only [Token.Kind.staysInside, Bool.not_or, Bool.and_eq_true, Bool.not_eq_true'] at hfirst
    rw [List.cons_append, passStatement, hlast, hfirst.1, if_neg (by simp)]
    refine ih ?_ fun token htoken => hinside token (by simp [htoken])
    simp only [List.head?_cons, Option.any_some, decide_eq_false_iff_not]
    intro hkind
    simp [hkind] at hfirst

/-- Recovery within a statement goes on to the first token behind it. -/
theorem Within.ahead_recover (h : c.Within after) (error : SyntaxError) :
    (c.recover error).ahead = after := by
  obtain ⟨inside, semicolon, hc, hsemicolon, hinside⟩ := h
  cases inside with
  | nil =>
    simp only [recover, resume, advance, hc, List.nil_append]
    cases after with
    | nil => rfl
    | cons token rest => rw [passStatement, if_pos (by simp [hsemicolon])]
  | cons first inside =>
    simp only [recover, resume, advance, hc, List.cons_append]
    refine passStatement_of_within ?_ hsemicolon fun token htoken =>
      hinside token (by simp [htoken])
    simp only [List.head?_cons, Option.any_some, decide_eq_false_iff_not]
    intro hkind
    have hfirst := hinside first (by simp)
    rw [hkind] at hfirst
    cases hfirst

end Cursor

namespace Grammar

open Cursor Parse

section Within

variable {levels : Nat} {after : List Token} {c : Cursor}

/-- The rule fails within the statement, or there is a derivation of the whole of it. -/
def Settles (levels : Nat) (s : Symbol) (after : List Token) (rule : Parse Node) (c : Cursor) :
    Prop :=
  (∃ error m, outcome rule c = (.error error, m) ∧ Remains after c m) ∨
    ∃ d : Derivation s, d.FitsIn levels ∧ c.ahead = d.tokens ++ after

/-- An expectation is met by a move past a token of the kind. -/
theorem outcome_expect_of_moves {m : Cursor} {kind : Token.Kind} {token : Terminal kind}
    (h : c.Moves [token.val] [] m) (complaint : Complaint) :
    outcome (expect kind complaint) c = (.ok token.val, m) := by
  have hahead : c.ahead = token.val :: m.ahead := h.ahead
  rw [outcome_expect_terminal token complaint hahead, ← h.eq_behind]

/-- Within a statement an expected token that is no semicolon is passed, or missed on the spot. -/
theorem within_expect (h : c.Within after) {kind : Token.Kind} (complaint : Complaint)
    (hkind : kind ≠ .semicolon) :
    (∃ error, outcome (expect kind complaint) c = (.error error, c)) ∨
      ∃ (token : Terminal kind) (m : Cursor),
        outcome (expect kind complaint) c = (.ok token.val, m) ∧
        c.Moves [token.val] [] m ∧ m.Within after := by
  cases hat : c.isAt kind with
  | false => exact .inl ⟨_, outcome_expect_of_not_isAt complaint hat⟩
  | true =>
    obtain ⟨token, rest, hahead, hmoves⟩ := exists_terminal_of_isAt hat
    exact .inr ⟨token, _, outcome_expect_terminal token complaint hahead, hmoves,
      h.pass hahead (by rwa [token.property])⟩

/-- Within a statement an expression is read, or an error found, without leaving it. -/
theorem within_expression (levels : Nat) (h : c.Within after) :
    (∃ error m, outcome (expression (nested levels)) c = (.error error, m) ∧ Remains after c m) ∨
      ∃ (d : Derivation .expression) (m : Cursor),
        outcome (expression (nested levels)) c = (.ok d.tree, m) ∧ d.FitsIn levels ∧
        c.Moves d.tokens [] m ∧ m.Within after := by
  have hfollows := (nestedFollows levels).group
  rcases hout : outcome (expression (nested levels)) c with ⟨error | node, m⟩
  · obtain ⟨raised, complaint, hraised, hglides, -⟩ := (follows_expression hfollows c).of_error hout
    exact .inl ⟨error, m, rfl, h.glides (hraised.trans hglides)⟩
  · obtain ⟨d, hfits, rfl, hmoves⟩ := derives_expression hfollows (nestedDerives levels) hout
    obtain ⟨-, -, hwithin⟩ := h.glides ((follows_expression hfollows c).of_ok hout)
    exact .inr ⟨d, m, rfl, hfits, hmoves, hwithin⟩

/-- An expression and its semicolon are the rest of the statement. -/
theorem within_expression_end (levels : Nat) (h : c.Within after) (complaint : Complaint)
    (next : Node → Parse Node) :
    (∃ error m, outcome (do
        let value ← expression (nested levels)
        let _ ← expect .semicolon complaint
        next value) c = (.error error, m) ∧ Remains after c m) ∨
      ∃ (d : Derivation .expression) (semicolon : Terminal .semicolon), d.FitsIn levels ∧
        c.ahead = d.tokens ++ semicolon.val :: after := by
  obtain ⟨error, m, hout, hremains⟩ | ⟨d, m, hout, hfits, hmoves, hwithin⟩ :=
    within_expression levels h
  · exact .inl ⟨error, m, outcome_bind_of_error hout, hremains⟩
  rw [outcome_bind_of_ok hout]
  cases hat : m.isAt .semicolon with
  | false =>
    exact .inl ⟨_, m, outcome_bind_of_error (outcome_expect_of_not_isAt complaint hat),
      .of_moves hmoves hwithin.remains⟩
  | true =>
    obtain ⟨semicolon, hahead⟩ := hwithin.ahead_of_isAt_semicolon hat
    exact .inr ⟨d, semicolon, hfits, by rw [hmoves.ahead, hahead]⟩

/-- A statement that evaluates fails within the statement or is the whole of it. -/
theorem settles_expressionStatement (levels : Nat) (h : c.Within after) :
    Settles levels .statement after (expressionStatement (nested levels)) c := by
  rw [Settles, expressionStatement, outcome_get_bind]
  obtain herror | ⟨d, semicolon, hfits, hahead⟩ := within_expression_end levels h
    .unendedExpression fun value => pure (.evaluate value (some c.line))
  · exact .inl herror
  · refine .inr ⟨.evaluate d semicolon, Derivation.fitsIn_evaluate.mpr hfits, ?_⟩
    rw [hahead, Derivation.tokens, List.append_assoc, List.singleton_append]

/-- A governed statement is an expression statement, as no other begins within the statement. -/
theorem settles_body (h : c.Within after) :
    (∃ error m, outcome (nested levels).body c = (.error error, m) ∧ Remains after c m) ∨
      ∃ deeper, levels = deeper + 1 ∧ ∃ d : Derivation .statement, d.FitsIn deeper ∧
        c.ahead = d.tokens ++ after := by
  cases levels with
  | zero => exact .inl ⟨_, c, rfl, h.remains⟩
  | succ deeper =>
    have hsettles := settles_expressionStatement deeper h
    have hbody : outcome (nested (deeper + 1)).body c =
        outcome (expressionStatement (nested deeper)) c := by
      show outcome (statement (nested deeper)) c = _
      rw [outcome_statement, h.isAt_eq_false (by decide) (by decide),
        h.isAt_eq_false (by decide) (by decide), h.isAt_eq_false (by decide) (by decide),
        h.isAt_eq_false (by decide) (by decide)]
      rfl
    rw [hbody]
    exact hsettles.imp_right fun hderives => ⟨deeper, rfl, hderives⟩

/-- Within a statement a condition in parentheses is read, or an error found. -/
theorem within_condition (h : c.Within after) (complaint complaint' : Complaint)
    (next : Node → Parse Node) :
    (∃ error m, outcome (do
        let _ ← expect .openParen complaint
        let condition ← expression (nested levels)
        let _ ← expect .closeParen complaint'
        next condition) c = (.error error, m) ∧ Remains after c m) ∨
      ∃ (opening : Terminal .openParen) (condition : Derivation .expression)
        (closing : Terminal .closeParen) (m : Cursor), condition.FitsIn levels ∧
        c.Moves (opening.val :: (condition.tokens ++ [closing.val])) [] m ∧ m.Within after ∧
        outcome (do
          let _ ← expect .openParen complaint
          let condition ← expression (nested levels)
          let _ ← expect .closeParen complaint'
          next condition) c = outcome (next condition.tree) m := by
  obtain ⟨error, hout⟩ | ⟨opening, m, hopening, hfirst, hwithin⟩ :=
    within_expect h complaint (show Token.Kind.openParen ≠ .semicolon by decide)
  · exact .inl ⟨error, c, outcome_bind_of_error hout, h.remains⟩
  rw [outcome_bind_of_ok hopening]
  obtain ⟨error, m', hout, hremains⟩ | ⟨condition, m', hcondition, hfits, hsecond, hwithin'⟩ :=
    within_expression levels hwithin
  · exact .inl ⟨error, m', outcome_bind_of_error hout, .of_moves hfirst hremains⟩
  rw [outcome_bind_of_ok hcondition]
  obtain ⟨error, hout⟩ | ⟨closing, m'', hclosing, hthird, hwithin''⟩ :=
    within_expect hwithin' complaint' (show Token.Kind.closeParen ≠ .semicolon by decide)
  · exact .inl ⟨error, m', outcome_bind_of_error hout,
      .of_moves (hfirst.trans hsecond) hwithin'.remains⟩
  · exact .inr ⟨opening, condition, closing, m'', hfits, (hfirst.trans hsecond).trans hthird,
      hwithin'', outcome_bind_of_ok hclosing⟩

/-- Behind the keyword the condition and the governed statement are the rest. -/
theorem settles_conditional {m : Cursor} {kind : Token.Kind} {word : Terminal kind}
    (hword : c.Moves [word.val] [] m) (h : m.Within after) (rule : Parse Node)
    {complaint complaint' complaint'' : Complaint} {next : Token → Node → Node → Parse Node}
    (hrule : rule = do
      let word ← expect kind complaint
      let _ ← expect .openParen complaint'
      let condition ← expression (nested levels)
      let _ ← expect .closeParen complaint''
      let body ← (nested levels).body
      next word condition body) :
    (∃ error m', outcome rule c = (.error error, m') ∧ Remains after c m') ∨
      ∃ (opening : Terminal .openParen) (condition : Derivation .expression)
        (closing : Terminal .closeParen) (deeper : Nat) (body : Derivation .statement),
        condition.FitsIn levels ∧ levels = deeper + 1 ∧ body.FitsIn deeper ∧
        c.ahead = word.val :: opening.val ::
          (condition.tokens ++ closing.val :: (body.tokens ++ after)) := by
  rw [hrule, outcome_bind_of_ok (outcome_expect_of_moves hword complaint)]
  obtain ⟨error, m', hout, hremains⟩ |
      ⟨opening, condition, closing, m', hfits, hmoves, hwithin, hout⟩ :=
    within_condition h complaint' complaint'' fun condition => do
      let body ← (nested levels).body
      next word.val condition body
  · exact .inl ⟨error, m', hout, .of_moves hword hremains⟩
  rw [hout]
  obtain ⟨error, m'', hbody, hremains⟩ | ⟨deeper, hdeeper, body, hbodyFits, hbody⟩ :=
    settles_body hwithin
  · exact .inl ⟨error, m'', outcome_bind_of_error hbody, .of_moves (hword.trans hmoves) hremains⟩
  · refine .inr ⟨opening, condition, closing, deeper, body, hfits, hdeeper, hbodyFits, ?_⟩
    rw [hword.ahead, hmoves.ahead, hbody]
    simp

/-- A conditional fails within the statement or is the whole of it. -/
theorem settles_ifStatement {m : Cursor} (word : Terminal .ifWord)
    (hword : c.Moves [word.val] [] m) (h : m.Within after) :
    Settles levels .statement after (ifStatement (nested levels)) c := by
  obtain herror | ⟨opening, condition, closing, deeper, body, hcondition, rfl, hbody, hahead⟩ :=
    settles_conditional hword h (ifStatement (nested levels)) rfl
  · exact .inl herror
  · refine .inr ⟨.ifThen word opening condition closing body,
      Derivation.fitsIn_ifThen.mpr ⟨hcondition, deeper, rfl, hbody⟩, ?_⟩
    rw [hahead]
    simp

/-- A loop fails within the statement or is the whole of it. -/
theorem settles_whileStatement {m : Cursor} (word : Terminal .whileWord)
    (hword : c.Moves [word.val] [] m) (h : m.Within after) :
    Settles levels .statement after (whileStatement (nested levels)) c := by
  obtain herror | ⟨opening, condition, closing, deeper, body, hcondition, rfl, hbody, hahead⟩ :=
    settles_conditional hword h (whileStatement (nested levels)) rfl
  · exact .inl herror
  · refine .inr ⟨.loop word opening condition closing body,
      Derivation.fitsIn_loop.mpr ⟨hcondition, deeper, rfl, hbody⟩, ?_⟩
    rw [hahead]
    simp

/-- A statement that prints fails within the statement or is the whole of it. -/
theorem settles_printStatement {m : Cursor} (word : Terminal .printWord)
    (hword : c.Moves [word.val] [] m) (h : m.Within after) :
    Settles levels .statement after (printStatement (nested levels)) c := by
  have hexpect := outcome_expect_of_moves hword (.expectedKind .printWord)
  rw [Settles, printStatement, outcome_bind_of_ok hexpect]
  obtain ⟨error, m', hout, hremains⟩ | ⟨d, semicolon, hfits, hahead⟩ :=
    within_expression_end levels h .unendedPrint fun value =>
      pure (.print value (some word.val.line))
  · exact .inl ⟨error, m', hout, .of_moves hword hremains⟩
  · refine .inr ⟨.print word d semicolon, Derivation.fitsIn_print.mpr hfits, ?_⟩
    rw [hword.ahead, hahead]
    simp

/-- A declaration of a variable fails within the statement or is the whole of it. -/
theorem settles_varDeclaration {m : Cursor} (word : Terminal .varWord)
    (hword : c.Moves [word.val] [] m) (h : m.Within after) :
    Settles levels .declaration after (varDeclaration (nested levels)) c := by
  have hexpect := outcome_expect_of_moves hword (.expectedKind .varWord)
  rw [Settles, varDeclaration, outcome_bind_of_ok hexpect]
  obtain ⟨error, hout⟩ | ⟨name, m', hout, hname, hwithin⟩ :=
    within_expect h .missingName (show Token.Kind.name ≠ .semicolon by decide)
  · exact .inl ⟨error, m, outcome_bind_of_error hout, .of_moves hword h.remains⟩
  rw [outcome_bind_of_ok hout, outcome_get_bind]
  have hstart := hword.trans hname
  cases hmark : m'.isAt .assign with
  | true =>
    obtain ⟨mark, rest, hahead, hpass⟩ := exists_terminal_of_isAt hmark
    have hwithin' := hwithin.pass hahead (by rw [mark.property]; decide)
    rw [if_pos rfl, outcome_advance_bind, advance_of_ahead hahead]
    obtain ⟨error, m'', hout, hremains⟩ | ⟨d, semicolon, hfits, hend⟩ :=
      within_expression_end levels hwithin' .unendedDeclaration fun value =>
        pure (.define name.val.text value (some word.val.line))
    · exact .inl ⟨error, m'', hout, .of_moves (hstart.trans hpass) hremains⟩
    · refine .inr ⟨.define word name mark d semicolon, Derivation.fitsIn_define.mpr hfits, ?_⟩
      rw [hstart.ahead, hpass.ahead, hend]
      simp
  | false =>
    rw [if_neg (by decide)]
    cases hat : m'.isAt .semicolon with
    | false =>
      exact .inl ⟨_, m', outcome_bind_of_error (outcome_expect_of_not_isAt _ hat),
        .of_moves hstart hwithin.remains⟩
    | true =>
      obtain ⟨semicolon, hahead⟩ := hwithin.ahead_of_isAt_semicolon hat
      refine .inr ⟨.declare word name semicolon, Derivation.fitsIn_leaf rfl rfl rfl, ?_⟩
      rw [hstart.ahead, hahead]
      simp

/-- One statement without braces: only its last token is a semicolon, and only its first one may
begin a statement. -/
structure SingleStatement (tokens : List Token) : Prop where
  ends : ∃ inside semicolon, tokens = inside ++ [semicolon] ∧ semicolon.kind = .semicolon ∧
    ∀ token ∈ inside, token.kind ∉ [.semicolon, .openBrace, .closeBrace]
  begins_once : ∀ token ∈ tokens.tail, token.kind.startsStatement = false
  begins : headKind tokens ≠ some .elseWord

/-- A cursor in front of one statement is within it, or a keyword is between. -/
theorem SingleStatement.cases_ahead {tokens : List Token} (h : SingleStatement tokens)
    (hahead : c.ahead = tokens ++ after) :
    c.Within after ∨ ∃ word rest, c.ahead = word :: rest ∧ word.kind.startsStatement = true ∧
      (c.behind [word] rest).Within after := by
  obtain ⟨inside, semicolon, rfl, hsemicolon, hinside⟩ := h.ends
  rw [List.append_assoc, List.singleton_append] at hahead
  have hstays {token : Token} (hmem : token ∈ inside)
      (hstarts : token.kind.startsStatement = false) : token.kind.staysInside = true := by
    simp [Token.Kind.staysInside, hstarts, hinside token hmem]
  cases inside with
  | nil => exact .inl ⟨[], semicolon, hahead, hsemicolon, by simp⟩
  | cons first inside =>
    have htail : ∀ token ∈ inside, token.kind.staysInside = true := fun token hmem =>
      hstays (by simp [hmem]) (h.begins_once token (by simp [hmem]))
    cases hfirst : first.kind.startsStatement with
    | true => exact .inr ⟨first, _, hahead, hfirst, inside, semicolon, rfl, hsemicolon, htail⟩
    | false =>
      refine .inl ⟨first :: inside, semicolon, hahead, hsemicolon, ?_⟩
      rintro token (_ | ⟨_, hmem⟩)
      · exact hstays (by simp) hfirst
      · exact htail token hmem

/-- An attempt at one statement fails within it, or there is a derivation of the statement. -/
theorem settles_attempt (levels : Nat) {tokens : List Token} (h : SingleStatement tokens)
    (hahead : c.ahead = tokens ++ after) :
    Settles levels .declaration after (attempt (nested levels)) c := by
  have hstatement (hvar : c.isAt .varWord = false)
      (hsettles : Settles levels .statement after (statement (nested levels)) c) :
      Settles levels .declaration after (attempt (nested levels)) c := by
    rw [Settles, outcome_attempt, hvar]
    exact hsettles.imp_right fun ⟨d, hfits, htokens⟩ =>
      ⟨.statement d, Derivation.fitsIn_statement.mpr hfits, htokens⟩
  -- Without a leading keyword only an expression statement is left to try.
  obtain hwithin | ⟨word, rest, hword, hstarts, hwithin⟩ := h.cases_ahead hahead
  · have hnone {kind : Token.Kind} (hkind : kind ≠ .semicolon)
        (hstays : kind.staysInside = false) : c.isAt kind = false :=
      hwithin.isAt_eq_false hkind hstays
    refine hstatement (hnone (by decide) (by decide)) ?_
    rw [Settles, outcome_statement, hnone (by decide) (by decide), hnone (by decide) (by decide),
      hnone (by decide) (by decide), hnone (by decide) (by decide)]
    exact settles_expressionStatement levels hwithin
  have hpass := moves_pass hword
  have hat (kind : Token.Kind) : c.isAt kind = decide (word.kind = kind) := isAt_of_ahead kind hword
  cases hkind : word.kind with
  | printWord =>
    refine hstatement (by rw [hat, hkind]; rfl) ?_
    rw [Settles, outcome_statement, hat, hkind]
    exact settles_printStatement ⟨word, hkind⟩ hpass hwithin
  | ifWord =>
    refine hstatement (by rw [hat, hkind]; rfl) ?_
    rw [Settles, outcome_statement, hat, hat, hkind]
    exact settles_ifStatement ⟨word, hkind⟩ hpass hwithin
  | whileWord =>
    refine hstatement (by rw [hat, hkind]; rfl) ?_
    rw [Settles, outcome_statement, hat, hat, hat, hkind]
    exact settles_whileStatement ⟨word, hkind⟩ hpass hwithin
  | varWord =>
    rw [Settles, outcome_attempt, hat, hkind]
    exact settles_varDeclaration ⟨word, hkind⟩ hpass hwithin
  | _ => rw [hkind] at hstarts; cases hstarts

/-- The error is about one of the tokens, and it says where that token stands. -/
def BlamesOneOf (tokens : List Token) (before : Nat) (error : SyntaxError) : Prop :=
  ∃ front token back, tokens = front ++ token :: back ∧ error.found = some token ∧
    error.line = token.line ∧ error.index = before + front.length

/-- An error that is found within a statement is about one of its tokens. -/
theorem blamesOneOf_of_remains {levels : Nat} {tokens : List Token} {m : Cursor}
    {error : SyntaxError} (hahead : c.ahead = tokens ++ after)
    (hout : outcome (attempt (nested levels)) c = (.error error, m)) (hwithin : m.Within after) :
    BlamesOneOf tokens c.position error := by
  obtain ⟨raised, complaint, hraised, hglides, rfl⟩ :=
    ((strides_attempt (nestedFollows levels)).follows c).of_error hout
  obtain ⟨front, found, hfront⟩ := Steps.exists_moves hraised
  obtain ⟨middle, hmiddle, -⟩ := Glides.exists_moves hglides
  obtain ⟨inside, semicolon, hend, -, -⟩ := hwithin
  have htokens : tokens = front ++ (middle ++ inside ++ [semicolon]) := by
    have hall : tokens ++ after = front ++ (middle ++ inside ++ [semicolon]) ++ after := by
      rw [← hahead, hfront.ahead, hmiddle.ahead, hend]
      simp
    exact List.append_cancel_right hall
  obtain ⟨token, back, hback⟩ : ∃ token back, middle ++ inside ++ [semicolon] = token :: back :=
    List.exists_cons_of_ne_nil (by simp)
  have hnext : raised.ahead = token :: (back ++ after) := by
    rw [← List.cons_append, ← hback, hmiddle.ahead, hend]
    simp
  refine ⟨front, token, back, by rw [htokens, hback], current?_of_ahead hnext,
    line_of_ahead hnext, ?_⟩
  exact hfront.position_eq

end Within

end Grammar

namespace Program

open Cursor Grammar

/-- Where the walk over a program stands in the text does not change what it reads. Only the
indices of errors count the tokens before it. -/
theorem outcome_program_eq (c : Cursor) :
    (Walk.outcome program c).1 = (ofTokens c.file ⟨c.ahead, c.endLine⟩).statements ∧
      (Walk.outcome program c).2.errors.toList = c.errors.toList ++
        (ofTokens c.file ⟨c.ahead, c.endLine⟩).errors.map (SyntaxError.moved c.position) := by
  have halike : (Cursor.start c.file ⟨c.ahead, c.endLine⟩).Alike Eq Eq c.position c.errors.toList
      c :=
    ⟨rfl, (Nat.zero_add _).symm, List.forall₂_same.mpr fun _ _ => ⟨rfl, rfl, rfl⟩, rfl, [],
      (List.append_nil _).symm, .nil⟩
  obtain ⟨hnodes, hend⟩ := alike_program halike
  obtain ⟨later, hlater, hpairs⟩ := hend.errors
  refine ⟨eq_of_forall₂_alike hnodes, ?_⟩
  rw [hlater, eq_map_moved_of_forall₂ hpairs, errors_ofTokens]

end Program

namespace Grammar

open Cursor

/-- A malformed statement in a list of declarations leaves one marker and one error, and the list
goes on behind it. -/
theorem outcome_declarations_of_malformed {levels : Nat} {stop : Cursor → Bool}
    (hend : EndsList stop) {tokens after : List Token} {c : Cursor}
    (h : SingleStatement tokens) (hahead : c.ahead = tokens ++ after)
    (hbroken : ∀ d : Derivation .declaration, d.FitsIn levels → d.tokens ≠ tokens) :
    ∃ error m, BlamesOneOf tokens c.position error ∧ c.Moves tokens [error] m ∧
      m.ahead = after ∧
      Walk.outcome (declarations stop (declaration (nested levels))) c =
        (error.marker c.file ::
            (Walk.outcome (declarations stop (declaration (nested levels))) m).1,
          (Walk.outcome (declarations stop (declaration (nested levels))) m).2) := by
  obtain ⟨error, m, hout, skipped, hmoves, hwithin⟩ | ⟨d, hfits, htokens⟩ :=
    settles_attempt levels h hahead
  · have hgoes : stop c = false := by
      obtain ⟨inside, semicolon, rfl, hsemicolon, hinside⟩ := h.ends
      cases inside with
      | nil => exact hend.goes_on c semicolon after hahead (by rw [hsemicolon]; decide)
      | cons first inside =>
        refine hend.goes_on c first _ hahead fun hkind => ?_
        exact absurd (hinside first (by simp)) (by simp [hkind])
    obtain ⟨passed, hrecover, -⟩ := exists_moves_recover m error
    have hafter := hwithin.ahead_recover error
    have hall := hmoves.trans hrecover
    -- Reading and recovery together pass the statement and nothing behind it.
    have htokens : skipped ++ passed = tokens := by
      have happend := hall.ahead
      rw [hahead, hafter] at happend
      exact (List.append_cancel_right happend).symm
    rw [htokens] at hall
    refine ⟨error, m.recover error, blamesOneOf_of_remains hahead hout hwithin, hall, hafter, ?_⟩
    rw [outcome_declarations_of_error (nestedFollows levels) hend hgoes hout, hmoves.file]
  · rw [hahead] at htokens
    exact absurd (List.append_cancel_right htokens).symm (hbroken d hfits)

end Grammar

namespace Program

open Cursor Parse Grammar

/-- Tokens that are no declaration on their own have no derivation as one. -/
theorem tokens_ne_of_not_single {file : Option String} {tokens : List Token} {endLine : Nat}
    (hbroken : ¬ ∃ node, (ofTokens file ⟨tokens, endLine⟩).statements = [node] ∧
      (ofTokens file ⟨tokens, endLine⟩).errors = [])
    {levels : Nat} (hlevels : levels ≤ maxNesting) (d : Derivation .declaration)
    (hfits : d.FitsIn levels) : d.tokens ≠ tokens := by
  rintro rfl
  have hfits' : (Derivation.next d .empty).FitsIn maxNesting :=
    Derivation.fitsIn_next.mpr
      ⟨⟨hfits.depth_le.trans hlevels, hfits.namesTargets, hfits.bindsElses⟩,
        Derivation.fitsIn_leaf rfl rfl rfl⟩
  exact hbroken ⟨d.tree, ofTokens_of_derivation hfits' file (List.append_nil d.tokens)⟩

/-- Between braces the tokens are read without an error, as one block of the nodes. -/
def ReadsAsBlock (file : Option String) (tokens : List Token) (nodes : List Node) : Prop :=
  ∃ (opening : Terminal .openBrace) (closing : Terminal .closeBrace) (endLine : Nat)
    (line : SourceLine),
    (ofTokens file ⟨opening.val :: (tokens ++ [closing.val]), endLine⟩).statements =
      [.block nodes line] ∧
    (ofTokens file ⟨opening.val :: (tokens ++ [closing.val]), endLine⟩).errors = []

/-- A block read without an error has a derivation one level further in. -/
theorem ReadsAsBlock.exists_derivation {file : Option String} {tokens : List Token}
    {nodes : List Node} (h : ReadsAsBlock file tokens nodes) {levels : Nat}
    (hlevels : maxNesting = levels + 1) :
    ∃ d : Derivation .declarations, d.FitsIn levels ∧ d.tokens = tokens ∧ d.tree = nodes := by
  obtain ⟨opening, closing, endLine, line, hnodes, herrors⟩ := h
  obtain ⟨d, hfits, htokens, htree⟩ := exists_derivation_of_errors_eq_nil herrors
  rw [hnodes] at htree
  cases d with
  | empty => cases htree
  | next first more =>
    cases more with
    | next => simp at htree
    | empty =>
      cases first with
      | declare => cases htree
      | define => cases htree
      | statement inner =>
        cases inner with
        | block opening' inner closing' =>
          obtain ⟨hblock, -⟩ := Derivation.fitsIn_next.mp hfits
          obtain ⟨deeper, hdeeper, hinner⟩ :=
            Derivation.fitsIn_block.mp (Derivation.fitsIn_statement.mp hblock)
          obtain rfl : levels = deeper := by omega
          simp only [Derivation.tokens, List.append_nil, List.cons.injEq] at htokens
          simp only [Derivation.tree, List.cons.injEq, Node.block.injEq, and_true] at htree
          exact ⟨inner, hinner, (List.append_inj' htokens.2 rfl).1, htree.1⟩
        | _ => cases htree

/-- A program that is one block. -/
theorem outcome_program_of_block {levels : Nat} (hlevels : maxNesting = levels + 1) {c m : Cursor}
    {opening : Terminal .openBrace} {closing : Terminal .closeBrace} {rest : List Token}
    {nodes : List Node} (hahead : c.ahead = opening.val :: rest)
    (hlist : Walk.outcome (declarations blockEnd (declaration (nested levels)))
      (c.behind [opening.val] rest) = (nodes, m)) (hend : m.ahead = [closing.val]) :
    Walk.outcome program c =
      ([.block nodes (some opening.val.line)], m.behind [closing.val] []) := by
  have hgoes : c.isAtEnd = false := by simp [isAtEnd, hahead]
  have hstop : (m.behind [closing.val] []).isAtEnd = true := rfl
  have hattempt : outcome (attempt (nested maxNesting)) c =
      (.ok (.block nodes (some opening.val.line)), m.behind [closing.val] []) := by
    rw [outcome_attempt, isAt_terminal opening .varWord hahead, if_neg (by decide), hlevels,
      Derivation.outcome_statement_of_openBrace hahead hlist,
      outcome_bind_of_ok (outcome_expect_terminal closing _ hend), outcome_pure]
  rw [program, outermost,
    outcome_declarations_of_ok (nestedFollows maxNesting) endsList_isAtEnd hgoes hattempt,
    outcome_declarations_of_stop hstop]

/-- The first token of a statement is the first one of a text that begins with it. -/
theorem headKind_append_ne_elseWord {tokens : List Token} (h : SingleStatement tokens)
    (after : List Token) : headKind (tokens ++ after) ≠ some .elseWord := by
  obtain ⟨inside, semicolon, rfl, -, -⟩ := h.ends
  have hbegins := h.begins
  cases inside <;> simpa using hbegins

/-- A malformed statement between declarations and any other tokens. -/
theorem exists_error_of_malformed {file : Option String} {malformed after : List Token}
    {d : Derivation .declarations} {endLine : Nat} (hstatement : SingleStatement malformed)
    (hbroken : ∀ d : Derivation .declaration, d.FitsIn maxNesting → d.tokens ≠ malformed)
    (hfits : d.FitsIn maxNesting) :
    ∃ error, BlamesOneOf malformed d.tokens.length error ∧
      (ofTokens file ⟨d.tokens ++ (malformed ++ after), endLine⟩).statements =
        d.tree ++ error.marker file :: (ofTokens file ⟨after, endLine⟩).statements ∧
      (ofTokens file ⟨d.tokens ++ (malformed ++ after), endLine⟩).errors =
        error :: (ofTokens file ⟨after, endLine⟩).errors.map
          (SyntaxError.moved (d.tokens.length + malformed.length)) := by
  have hread : Derivation.ReadsDeclarations d := d.reads
  have helse := headKind_append_ne_elseWord hstatement after
  let c := start file ⟨d.tokens ++ (malformed ++ after), endLine⟩
  obtain ⟨error, m, hblames, hmoves, hahead, hout⟩ := outcome_declarations_of_malformed
    endsList_isAtEnd hstatement (ahead_behind c d.tokens (malformed ++ after)) hbroken
  obtain ⟨hnodes, hlater⟩ := outcome_program_eq m
  have hposition : m.position = d.tokens.length + malformed.length := by
    simp [position, hmoves.passed, c, start, Nat.add_comm]
  have hfirst : m.errors.toList = [error] := hmoves.errors
  rw [show m.file = file from hmoves.file, hahead, show m.endLine = endLine from hmoves.endLine]
    at hnodes hlater
  have hprogram : Walk.outcome program c =
      (d.tree ++ error.marker file :: (Walk.outcome program m).1, (Walk.outcome program m).2) := by
    rw [program, outermost, hread endsList_isAtEnd hfits rfl helse, hout]
    rfl
  refine ⟨error, by simpa [position, c, start] using hblames, ?_, ?_⟩
  · rw [statements_ofTokens, hprogram, hnodes]
  · rw [errors_ofTokens, hprogram, hlater, hfirst, hposition, List.singleton_append]

/-- A malformed statement between declarations, all of them in braces. -/
theorem exists_error_of_malformed_in_braces {file : Option String} {malformed : List Token}
    {levels : Nat} (hlevels : maxNesting = levels + 1) {d d' : Derivation .declarations}
    {opening : Terminal .openBrace} {closing : Terminal .closeBrace} {endLine : Nat}
    (hstatement : SingleStatement malformed)
    (hbroken : ∀ d : Derivation .declaration, d.FitsIn levels → d.tokens ≠ malformed)
    (hfits : d.FitsIn levels) (hfits' : d'.FitsIn levels) :
    ∃ error, BlamesOneOf malformed (d.tokens.length + 1) error ∧
      (ofTokens file ⟨opening.val :: (d.tokens ++ (malformed ++ (d'.tokens ++ [closing.val]))),
        endLine⟩).statements =
        [.block (d.tree ++ error.marker file :: d'.tree) (some opening.val.line)] ∧
      (ofTokens file ⟨opening.val :: (d.tokens ++ (malformed ++ (d'.tokens ++ [closing.val]))),
        endLine⟩).errors = [error] := by
  have hread : Derivation.ReadsDeclarations d := d.reads
  have hread' : Derivation.ReadsDeclarations d' := d'.reads
  let after := d'.tokens ++ [closing.val]
  let c := start file ⟨opening.val :: (d.tokens ++ (malformed ++ after)), endLine⟩
  let c' := c.behind [opening.val] (d.tokens ++ (malformed ++ after))
  have helse := headKind_append_ne_elseWord hstatement after
  obtain ⟨error, m, hblames, hmoves, hahead, hout⟩ := outcome_declarations_of_malformed
    endsList_blockEnd hstatement (ahead_behind c' d.tokens (malformed ++ after)) hbroken
  have hlist : Walk.outcome (declarations blockEnd (declaration (nested levels))) c' =
      (d.tree ++ error.marker file :: d'.tree, m.behind d'.tokens [closing.val]) := by
    rw [hread endsList_blockEnd hfits rfl helse, hout, hread'.in_braces hfits' hahead]
    rfl
  have hblock := outcome_program_of_block hlevels (c := c) rfl hlist rfl
  refine ⟨error, by simpa [position, c, c', start, Nat.add_comm] using hblames, ?_, ?_⟩
  · rw [statements_ofTokens, hblock]
  · rw [errors_ofTokens, hblock]
    exact hmoves.errors

/-- One malformed statement is isolated. What stands before it and what stands behind it are read as
if they stood alone, one marker takes its place, and its one error is about one of its tokens. The
same holds between braces. -/
theorem one_malformed_statement {file : Option String} {malformed : List Token} {line : Nat}
    (hstatement : SingleStatement malformed)
    (hbroken : ¬ ∃ node, (ofTokens file ⟨malformed, line⟩).statements = [node] ∧
      (ofTokens file ⟨malformed, line⟩).errors = []) :
    (∀ (before after : List Token) (line' endLine : Nat),
      (ofTokens file ⟨before, line'⟩).errors = [] →
      ∃ error, BlamesOneOf malformed before.length error ∧
        (ofTokens file ⟨before ++ (malformed ++ after), endLine⟩).statements =
          (ofTokens file ⟨before, line'⟩).statements ++
            error.marker file :: (ofTokens file ⟨after, endLine⟩).statements ∧
        (ofTokens file ⟨before ++ (malformed ++ after), endLine⟩).errors =
          error :: (ofTokens file ⟨after, endLine⟩).errors.map
            (SyntaxError.moved (before.length + malformed.length))) ∧
    ∀ (before after : List Token) (nodes nodes' : List Node) (opening : Terminal .openBrace)
      (closing : Terminal .closeBrace) (endLine : Nat),
      ReadsAsBlock file before nodes → ReadsAsBlock file after nodes' →
      ∃ error, BlamesOneOf malformed (before.length + 1) error ∧
        (ofTokens file ⟨opening.val :: (before ++ (malformed ++ (after ++ [closing.val]))),
          endLine⟩).statements =
          [.block (nodes ++ error.marker file :: nodes') (some opening.val.line)] ∧
        (ofTokens file ⟨opening.val :: (before ++ (malformed ++ (after ++ [closing.val]))),
          endLine⟩).errors = [error] := by
  constructor
  · intro before after line' endLine herrors
    obtain ⟨d, hfits, rfl, htree⟩ := exists_derivation_of_errors_eq_nil herrors
    rw [← htree]
    exact exists_error_of_malformed hstatement (tokens_ne_of_not_single hbroken le_rfl) hfits
  · intro before after nodes nodes' opening closing endLine hbefore hafter
    obtain ⟨levels, hlevels⟩ : ∃ levels, maxNesting = levels + 1 := ⟨47, rfl⟩
    obtain ⟨d, hfits, rfl, rfl⟩ := hbefore.exists_derivation hlevels
    obtain ⟨d', hfits', rfl, rfl⟩ := hafter.exists_derivation hlevels
    have hlevels' : levels ≤ maxNesting := by omega
    exact exists_error_of_malformed_in_braces hlevels hstatement
      (tokens_ne_of_not_single hbroken hlevels') hfits hfits'

/-- The tokens of `x = (y;`. -/
def unclosedAssignment : List Token :=
  [⟨.name, "x", 2⟩, ⟨.assign, "=", 2⟩, ⟨.openParen, "(", 2⟩, ⟨.name, "y", 2⟩, ⟨.semicolon, ";", 2⟩]

/-- The tokens of `print a;`. -/
def printVariable : List Token :=
  [⟨.printWord, "print", 1⟩, ⟨.name, "a", 1⟩, ⟨.semicolon, ";", 1⟩]

/-- An unclosed group between two statements. -/
theorem one_malformed_statement_unclosed :
    SingleStatement unclosedAssignment ∧
    (ofTokens none ⟨printVariable, 1⟩).errors = [] ∧
    ∃ error, BlamesOneOf unclosedAssignment 3 error ∧
      (ofTokens none ⟨printVariable ++ (unclosedAssignment ++ printVariable), 2⟩).statements =
        [.print (.reference "a" (some 1)) (some 1), error.marker none,
          .print (.reference "a" (some 1)) (some 1)] ∧
      (ofTokens none ⟨printVariable ++ (unclosedAssignment ++ printVariable), 2⟩).errors =
        [error] := by
  have hstatement : SingleStatement unclosedAssignment :=
    ⟨⟨unclosedAssignment.dropLast, ⟨.semicolon, ";", 2⟩, rfl, rfl, by decide⟩, by decide, by decide⟩
  have hbroken : ¬ ∃ node, (ofTokens none ⟨unclosedAssignment, 2⟩).statements = [node] ∧
      (ofTokens none ⟨unclosedAssignment, 2⟩).errors = [] := by
    rintro ⟨node, -, herrors⟩
    exact absurd herrors (by decide)
  have hprint : (ofTokens none ⟨printVariable, 1⟩).errors = [] := by decide
  exact ⟨hstatement, hprint,
    (one_malformed_statement hstatement hbroken).1 printVariable printVariable 1 2 hprint⟩

end Program

end ScriptKit
