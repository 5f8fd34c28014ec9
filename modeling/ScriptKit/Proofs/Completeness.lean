import ScriptKit.Proofs.Progress
import ScriptKit.Proofs.Unambiguous

/-!
# What the grammar derives, the rules read

Put the cursor in front of the tokens of a derivation that fits into the levels left, with anything
behind them at which the derivation is over. Then the rule for its symbol succeeds, gives the tree
of the derivation and stops right behind the tokens.

`Reads` says this for each symbol, with the rest of a row read after any left part and with a list
of declarations read as the beginning of a longer one. Each production has a lemma, and the
theorem at the end goes through the productions of a derivation.
-/

set_option autoImplicit false

namespace ScriptKit.Grammar

open Cursor Parse

/-- An expected token is passed. -/
theorem outcome_expect_terminal {kind : Token.Kind} (token : Terminal kind) {c : Cursor}
    {rest : List Token} (complaint : Complaint) (h : c.ahead = token.val :: rest) :
    outcome (expect kind complaint) c = (.ok token.val, c.behind [token.val] rest) := by
  have hexpect := outcome_expect_of_ahead complaint h
  rwa [token.property] at hexpect

/-- Which kinds a cursor is at in front of a token of a known kind. -/
theorem isAt_terminal {kind : Token.Kind} (token : Terminal kind) {c : Cursor}
    {rest : List Token} (other : Token.Kind) (h : c.ahead = token.val :: rest) :
    c.isAt other = decide (kind = other) := by
  rw [isAt_of_ahead other h, token.property]

/-- A cursor is at a kind only if a token of that kind is the next one. -/
theorem isAt_eq_false {c : Cursor} {kind : Token.Kind} (h : headKind c.ahead ≠ some kind) :
    c.isAt kind = false := by
  rw [isAt_eq_head, decide_eq_false_iff_not]
  exact h

/-- A row goes on only if one of its operators is the next token. -/
theorem bind_operatorAt? (c : Cursor) (row : Nat) :
    c.ahead.head?.bind (operatorAt? row ·.kind) = (headKind c.ahead).bind (operatorAt? row) := by
  cases c.ahead <;> rfl

namespace Derivation

/-- The rule for operands of the row reads the derivation. -/
def ReadsOperand {row : Nat} (d : Derivation (.operand row)) : Prop :=
  ∀ {levels : Nat} {c : Cursor} {after : List Token}, d.FitsIn levels →
    c.ahead = d.tokens ++ after → d.Closes (headKind after) →
    outcome (operandAt (nested levels) row) c = (.ok d.tree, c.behind d.tokens after)

/-- The loop over a row reads the derivation, whatever stands to the left of it. -/
def ReadsRest {row : Nat} (d : Derivation (.rest row)) : Prop :=
  ∀ {levels : Nat} {c : Cursor} {after : List Token} (left : Node), d.FitsIn levels →
    c.ahead = d.tokens ++ after → d.Closes (headKind after) →
    outcome (chainRest (operatorAt? row) (operandAt (nested levels) row) left) c =
      (.ok (d.tree left), c.behind d.tokens after)

/-- The rule for expressions reads the derivation. -/
def ReadsExpression (d : Derivation .expression) : Prop :=
  ∀ {levels : Nat} {c : Cursor} {after : List Token}, d.FitsIn levels →
    c.ahead = d.tokens ++ after → d.Closes (headKind after) →
    outcome (Grammar.expression (nested levels)) c = (.ok d.tree, c.behind d.tokens after)

/-- The rule for statements reads the derivation. -/
def ReadsStatement (d : Derivation .statement) : Prop :=
  ∀ {levels : Nat} {c : Cursor} {after : List Token}, d.FitsIn levels →
    c.ahead = d.tokens ++ after → d.Closes (headKind after) →
    outcome (Grammar.statement (nested levels)) c = (.ok d.tree, c.behind d.tokens after)

/-- The attempt at a declaration reads the derivation. -/
def ReadsDeclaration (d : Derivation .declaration) : Prop :=
  ∀ {levels : Nat} {c : Cursor} {after : List Token}, d.FitsIn levels →
    c.ahead = d.tokens ++ after → d.Closes (headKind after) →
    outcome (attempt (nested levels)) c = (.ok d.tree, c.behind d.tokens after)

/-- The loop over declarations reads the derivation and goes on behind it. -/
def ReadsDeclarations (d : Derivation .declarations) : Prop :=
  ∀ {levels : Nat} {c : Cursor} {after : List Token} {stop : Cursor → Bool}, EndsList stop →
    d.FitsIn levels → c.ahead = d.tokens ++ after → headKind after ≠ some .elseWord →
    Walk.outcome (Grammar.declarations stop (Grammar.declaration (nested levels))) c =
      (d.tree ++ (Walk.outcome (Grammar.declarations stop (Grammar.declaration (nested levels)))
          (c.behind d.tokens after)).1,
        (Walk.outcome (Grammar.declarations stop (Grammar.declaration (nested levels)))
          (c.behind d.tokens after)).2)

/-- The rule for the symbol reads the derivation. -/
def Reads : {s : Symbol} → Derivation s → Prop
  | .operand _, d => ReadsOperand d
  | .rest _, d => ReadsRest d
  | .expression, d => ReadsExpression d
  | .statement, d => ReadsStatement d
  | .declaration, d => ReadsDeclaration d
  | .declarations, d => ReadsDeclarations d

section Expressions

variable {row : Nat}

/-- A number is read as a primary. -/
theorem reads_literal (token : Terminal .number) : ReadsOperand (literal token) :=
  fun _ hahead _ => outcome_primary_of_number hahead token.property

/-- A name is read as a primary. -/
theorem reads_reference (token : Terminal .name) : ReadsOperand (reference token) :=
  fun _ hahead _ => outcome_primary_of_name hahead token.property

/-- An expression is read in front of a token that ends expressions. -/
theorem ReadsExpression.before_terminal {d : Derivation .expression} (h : ReadsExpression d)
    {kind : Token.Kind} (token : Terminal kind) (hsign : kind.row? = none) (hmark : kind ≠ .assign)
    {levels : Nat} {c : Cursor} {after : List Token} (hfits : d.FitsIn levels)
    (hahead : c.ahead = d.tokens ++ token.val :: after) :
    outcome (Grammar.expression (nested levels)) c =
      (.ok d.tree, c.behind d.tokens (token.val :: after)) := by
  refine h hfits hahead ?_
  rw [headKind_cons, token.property]
  exact d.closes_expression hsign hmark

/-- A group is read as a primary, if the rule for expressions reads what is in it. -/
theorem reads_group {opening closing} {inner : Derivation .expression}
    (h : ReadsExpression inner) : ReadsOperand (group opening inner closing) := by
  intro levels c after hfits hahead _
  obtain ⟨deeper, rfl, hinner⟩ := fitsIn_group.mp hfits
  simp only [tokens, List.cons_append, List.append_assoc, List.nil_append] at hahead
  rw [operandAt, outcome_primary_of_openParen hahead opening.property]
  have hread := h.before_terminal closing rfl (by decide) hinner
    (c := c.behind [opening.val] (inner.tokens ++ closing.val :: after)) rfl
  rw [outcome_bind_of_ok (show outcome (nested (deeper + 1)).group _ = _ from hread),
    outcome_bind_of_ok (outcome_expect_terminal closing .unclosedGroup rfl), outcome_pure]
  simp

/-- A row is read as its first operand and the operations behind it. -/
theorem reads_chain {first : Derivation (.operand row)} {more : Derivation (.rest row)}
    (hfirst : ReadsOperand first) (hmore : ReadsRest more) : ReadsOperand (chain first more) := by
  intro levels c after hfits hahead hover
  obtain ⟨hfirstFits, hmoreFits⟩ := fitsIn_chain.mp hfits
  simp only [tokens, List.append_assoc] at hahead
  rw [operandAt, chain_eq_chainRest,
    outcome_bind_of_ok (hfirst hfirstFits hahead (closes_operand_rest first more hover)),
    hmore first.tree hmoreFits (ahead_behind _ _ _) (fun r hr => hover r (by omega)),
    behind_behind]
  rfl

/-- A row ends where no operator of it follows. -/
theorem reads_done : ReadsRest (done : Derivation (.rest row)) := by
  intro levels c after left _ hahead hover
  rw [tokens, List.nil_append] at hahead
  rw [outcome_chainRest_of_none left (by rw [bind_operatorAt?, hahead]; exact hover row le_rfl),
    ← hahead]
  rfl

/-- One more operation is read in one more round of the loop over the row. -/
theorem reads_operation {sign op} {hsign : operatorAt? row sign.kind = some op}
    {operand : Derivation (.operand row)} {more : Derivation (.rest row)}
    (hoperand : ReadsOperand operand) (hmore : ReadsRest more) :
    ReadsRest (operation sign op hsign operand more) := by
  intro levels c after left hfits hahead hover
  obtain ⟨hoperandFits, hmoreFits⟩ := fitsIn_operation.mp hfits
  simp only [tokens, List.cons_append, List.append_assoc] at hahead
  have hfollows := follows_operandAt (nestedFollows levels).group row
  rw [outcome_chainRest_of_some hfollows left hahead hsign,
    outcome_bind_of_ok (hoperand hoperandFits (ahead_behind _ _ _)
      (closes_operand_rest operand more fun r hr => hover r (by omega))),
    hmore _ hmoreFits (ahead_behind _ _ _) hover, behind_behind, behind_behind]
  rfl

/-- An expression ends where no assignment mark follows. -/
theorem reads_plain {equality : Derivation (.operand 4)} (h : ReadsOperand equality) :
    ReadsExpression (plain equality) := by
  intro levels c after hfits hahead hover
  have hread := h (fitsIn_plain.mp hfits) hahead hover.1
  rw [← equality_eq_operandAt] at hread
  rw [expression_eq_assignRest, outcome_bind_of_ok hread,
    outcome_assignRest_of_not_assign _ (isAt_eq_false hover.2)]
  rfl

/-- Only variables can be assigned to, and they can. -/
theorem assignment?_of_isVariable {target : Node} (value : Node) (h : target.isVariable = true) :
    assignment? target value = some ((assignment? target value).getD target) := by
  cases target <;> first | rfl | cases h

/-- An assignment is read as a target and, one level further in, a value. -/
theorem reads_assign {mark} {target : Derivation (.operand 4)} {value : Derivation .expression}
    (htarget : ReadsOperand target) (hvalue : ReadsExpression value) :
    ReadsExpression (assign target mark value) := by
  intro levels c after hfits hahead hover
  obtain ⟨hvariable, htargetFits, deeper, rfl, hvalueFits⟩ := fitsIn_assign.mp hfits
  simp only [tokens, List.append_assoc, List.cons_append] at hahead
  have hmark : target.Closes (headKind (mark.val :: (value.tokens ++ after))) := by
    rw [headKind_cons, mark.property]
    exact target.closes_operand rfl
  have hleft := htarget htargetFits hahead hmark
  have hright := hvalue hvalueFits
    (c := (c.behind target.tokens (mark.val :: (value.tokens ++ after))).behind [mark.val] _)
    (ahead_behind _ _ (value.tokens ++ after)) hover
  rw [← equality_eq_operandAt] at hleft
  rw [expression_eq_assignRest, outcome_bind_of_ok hleft,
    outcome_assignRest_of_assign _ (ahead_behind _ _ _) mark.property,
    show outcome (nested (deeper + 1)).group _ = _ from hright]
  dsimp only
  rw [assignment?_of_isVariable value.tree hvariable]
  simp

end Expressions

section Statements

/-- What begins with a primary is an expression statement. -/
theorem outcome_statement_of_opensPrimary {inner : Nested} {c : Cursor} {token : Token}
    {rest : List Token} (h : c.ahead = token :: rest) (hkind : token.kind.opensPrimary = true) :
    outcome (Grammar.statement inner) c = outcome (expressionStatement inner) c := by
  rw [outcome_statement]
  simp only [isAt_of_ahead _ h]
  cases htoken : token.kind <;> rw [htoken] at hkind <;> first | rfl | cases hkind

/-- A statement that prints is read by its word. -/
theorem reads_print {word semicolon} {value : Derivation .expression}
    (h : ReadsExpression value) : ReadsStatement (print word value semicolon) := by
  intro levels c after hfits hahead _
  simp only [tokens, List.cons_append, List.append_assoc, List.nil_append] at hahead
  have hvalue := h.before_terminal semicolon rfl (by decide) (fitsIn_print.mp hfits)
    (c := c.behind [word.val] (value.tokens ++ semicolon.val :: after)) rfl
  rw [outcome_statement, isAt_terminal word .printWord hahead, if_pos (by decide), printStatement,
    outcome_bind_of_ok (outcome_expect_terminal word _ hahead), outcome_bind_of_ok hvalue,
    outcome_bind_of_ok (outcome_expect_terminal semicolon _ rfl), outcome_pure]
  simp

/-- A condition in parentheses is read in front of anything. -/
theorem ReadsExpression.in_parens {condition : Derivation .expression}
    (h : ReadsExpression condition) {levels : Nat} (hfits : condition.FitsIn levels)
    {β : Type} {opening : Terminal .openParen} {closing : Terminal .closeParen} {c : Cursor}
    {after : List Token} (complaint complaint' : Complaint) (next : Node → Parse β)
    (hahead : c.ahead = opening.val :: (condition.tokens ++ closing.val :: after)) :
    outcome (do
      let _ ← expect .openParen complaint
      let node ← Grammar.expression (nested levels)
      let _ ← expect .closeParen complaint'
      next node) c =
    outcome (next condition.tree)
      (c.behind (opening.val :: (condition.tokens ++ [closing.val])) after) := by
  have hcondition := h.before_terminal closing rfl (by decide) hfits
    (c := c.behind [opening.val] (condition.tokens ++ closing.val :: after)) rfl
  rw [outcome_bind_of_ok (outcome_expect_terminal opening _ hahead),
    outcome_bind_of_ok hcondition, outcome_bind_of_ok (outcome_expect_terminal closing _ rfl),
    behind_behind, behind_behind]
  rfl

/-- A governed statement is read one level further in. -/
theorem ReadsStatement.as_body {d : Derivation .statement} (h : ReadsStatement d) {deeper : Nat}
    (hfits : d.FitsIn deeper) {c : Cursor} {before after : List Token}
    (hover : d.Closes (headKind after)) :
    outcome (nested (deeper + 1)).body (c.behind before (d.tokens ++ after)) =
      (.ok d.tree, c.behind (before ++ d.tokens) after) := by
  rw [← behind_behind c before d.tokens (d.tokens ++ after)]
  exact h hfits (ahead_behind _ _ _) hover

/-- A conditional is read without an `else`, since none follows it. -/
theorem reads_ifThen {word opening closing} {condition : Derivation .expression}
    {thenBranch : Derivation .statement} (hcondition : ReadsExpression condition)
    (hthen : ReadsStatement thenBranch) :
    ReadsStatement (ifThen word opening condition closing thenBranch) := by
  intro levels c after hfits hahead hover
  obtain ⟨hconditionFits, deeper, rfl, hthenFits⟩ := fitsIn_ifThen.mp hfits
  simp only [tokens, List.cons_append, List.append_assoc] at hahead
  have helse : headKind after ≠ some .elseWord := hover rfl
  rw [outcome_statement, isAt_terminal word .printWord hahead, isAt_terminal word .ifWord hahead,
    if_neg (by decide), if_pos (by decide), ifStatement,
    outcome_bind_of_ok (outcome_expect_terminal word _ hahead),
    hcondition.in_parens hconditionFits _ _ _ (ahead_behind _ _ _),
    outcome_bind_of_ok (hthen.as_body hthenFits fun _ => helse), outcome_get_bind,
    isAt_eq_false helse]
  simp

/-- An `else` is read with the conditional that is still open for it: none in the first branch
is. -/
theorem reads_ifElse {word opening closing otherwise} {condition : Derivation .expression}
    {thenBranch elseBranch : Derivation .statement} (hcondition : ReadsExpression condition)
    (hthen : ReadsStatement thenBranch) (helse : ReadsStatement elseBranch) :
    ReadsStatement (ifElse word opening condition closing thenBranch otherwise elseBranch) := by
  intro levels c after hfits hahead hover
  obtain ⟨hclosed, hconditionFits, deeper, rfl, hthenFits, helseFits⟩ := fitsIn_ifElse.mp hfits
  simp only [tokens, List.cons_append, List.append_assoc] at hahead
  have hthenOver : thenBranch.Closes (headKind (otherwise.val :: (elseBranch.tokens ++ after))) :=
    fun hopen => by rw [hclosed] at hopen; cases hopen
  rw [outcome_statement, isAt_terminal word .printWord hahead, isAt_terminal word .ifWord hahead,
    if_neg (by decide), if_pos (by decide), ifStatement,
    outcome_bind_of_ok (outcome_expect_terminal word _ hahead),
    hcondition.in_parens hconditionFits _ _ _ (ahead_behind _ _ _),
    outcome_bind_of_ok (hthen.as_body hthenFits hthenOver), outcome_get_bind,
    isAt_terminal otherwise .elseWord (ahead_behind _ _ _), if_pos (by decide),
    outcome_advance_bind, advance_of_ahead (ahead_behind _ _ _),
    outcome_bind_of_ok (helse.as_body helseFits hover), outcome_pure]
  simp

/-- A loop is read by its word. -/
theorem reads_loop {word opening closing} {condition : Derivation .expression}
    {body : Derivation .statement} (hcondition : ReadsExpression condition)
    (hbody : ReadsStatement body) :
    ReadsStatement (loop word opening condition closing body) := by
  intro levels c after hfits hahead hover
  obtain ⟨hconditionFits, deeper, rfl, hbodyFits⟩ := fitsIn_loop.mp hfits
  simp only [tokens, List.cons_append, List.append_assoc] at hahead
  rw [outcome_statement, isAt_terminal word .printWord hahead, isAt_terminal word .ifWord hahead,
    isAt_terminal word .whileWord hahead, if_neg (by decide), if_neg (by decide),
    if_pos (by decide), whileStatement,
    outcome_bind_of_ok (outcome_expect_terminal word _ hahead),
    hcondition.in_parens hconditionFits _ _ _ (ahead_behind _ _ _),
    outcome_bind_of_ok (hbody.as_body hbodyFits hover), outcome_pure]
  simp

/-- The list in braces is read up to the closing brace. -/
theorem ReadsDeclarations.in_braces {inner : Derivation .declarations}
    (h : ReadsDeclarations inner) {levels : Nat} (hfits : inner.FitsIn levels)
    {closing : Terminal .closeBrace} {c : Cursor} {after : List Token}
    (hahead : c.ahead = inner.tokens ++ closing.val :: after) :
    Walk.outcome (Grammar.declarations blockEnd (Grammar.declaration (nested levels))) c =
      (inner.tree, c.behind inner.tokens (closing.val :: after)) := by
  have hstop : blockEnd (c.behind inner.tokens (closing.val :: after)) = true := by
    simp [blockEnd, isAt_terminal closing .closeBrace (ahead_behind _ _ _)]
  have helse : headKind (closing.val :: after) ≠ some .elseWord := by
    rw [headKind_cons, closing.property]
    decide
  rw [h endsList_blockEnd hfits hahead helse, outcome_declarations_of_stop hstop,
    List.append_nil]

/-- At an opening brace a statement is a block. Behind its declarations the closing brace is
expected. -/
theorem outcome_statement_of_openBrace {levels : Nat} {c m : Cursor}
    {opening : Terminal .openBrace} {rest : List Token} {nodes : List Node}
    (hahead : c.ahead = opening.val :: rest)
    (hlist : Walk.outcome (Grammar.declarations blockEnd (Grammar.declaration (nested levels)))
      (c.behind [opening.val] rest) = (nodes, m)) :
    outcome (Grammar.statement (nested (levels + 1))) c =
      outcome (do
        let _ ← expect .closeBrace .unclosedBlock
        return .block nodes (some opening.val.line)) m := by
  rw [outcome_statement, isAt_terminal opening .printWord hahead,
    isAt_terminal opening .ifWord hahead, isAt_terminal opening .whileWord hahead,
    isAt_terminal opening .openBrace hahead, if_neg (by decide), if_neg (by decide),
    if_neg (by decide), if_pos (by decide), nested,
    outcome_braced_of_ahead hahead opening.property, hlist]

/-- A block is read by its opening brace, and its declarations end at the closing one. -/
theorem reads_block {opening closing} {inner : Derivation .declarations}
    (h : ReadsDeclarations inner) : ReadsStatement (block opening inner closing) := by
  intro levels c after hfits hahead _
  obtain ⟨deeper, rfl, hinner⟩ := fitsIn_block.mp hfits
  simp only [tokens, List.cons_append, List.append_assoc, List.nil_append] at hahead
  have hlist := h.in_braces hinner
    (ahead_behind c [opening.val] (inner.tokens ++ closing.val :: after))
  rw [outcome_statement_of_openBrace hahead hlist,
    outcome_bind_of_ok (outcome_expect_terminal closing _ rfl), outcome_pure]
  simp

/-- A statement that evaluates is read where no word begins another one. -/
theorem reads_evaluate {semicolon} {value : Derivation .expression} (h : ReadsExpression value) :
    ReadsStatement (evaluate value semicolon) := by
  intro levels c after hfits hahead _
  simp only [tokens, List.append_assoc, List.singleton_append] at hahead
  have hvalue := h.before_terminal semicolon rfl (by decide) (fitsIn_evaluate.mp hfits) hahead
  obtain ⟨token, rest, htokens, hopens⟩ := value.exists_head_expression
  have hfirst : c.ahead = token :: (rest ++ semicolon.val :: after) := by
    rw [hahead, htokens, List.cons_append]
  rw [outcome_statement_of_opensPrimary hfirst hopens, expressionStatement, outcome_get_bind,
    outcome_bind_of_ok hvalue, outcome_bind_of_ok (outcome_expect_terminal semicolon _ rfl),
    outcome_pure, line_of_ahead hfirst]
  simp [htokens]

end Statements

section Declarations

/-- A declaration without an initial value is read by its word. -/
theorem reads_declare {word name semicolon} : ReadsDeclaration (declare word name semicolon) := by
  intro levels c after _ hahead _
  simp only [tokens, List.cons_append, List.nil_append] at hahead
  rw [outcome_attempt, isAt_terminal word .varWord hahead, if_pos (by decide), varDeclaration,
    outcome_bind_of_ok (outcome_expect_terminal word _ hahead),
    outcome_bind_of_ok (outcome_expect_terminal name _ rfl), outcome_get_bind,
    isAt_terminal semicolon .assign rfl, if_neg (by decide),
    outcome_bind_of_ok (outcome_expect_terminal semicolon _ rfl), outcome_pure]
  simp

/-- A declaration with an initial value is read by its word and its assignment mark. -/
theorem reads_define {word name mark semicolon} {initial : Derivation .expression}
    (h : ReadsExpression initial) :
    ReadsDeclaration (define word name mark initial semicolon) := by
  intro levels c after hfits hahead _
  simp only [tokens, List.cons_append, List.append_assoc, List.nil_append] at hahead
  have hinitial := h.before_terminal semicolon rfl (by decide) (fitsIn_define.mp hfits)
    (c := c.behind [word.val, name.val, mark.val] (initial.tokens ++ semicolon.val :: after)) rfl
  rw [outcome_attempt, isAt_terminal word .varWord hahead, if_pos (by decide), varDeclaration,
    outcome_bind_of_ok (outcome_expect_terminal word _ hahead),
    outcome_bind_of_ok (outcome_expect_terminal name _ rfl), outcome_get_bind,
    isAt_terminal mark .assign rfl, if_pos (by decide), outcome_advance_bind,
    advance_of_ahead (ahead_behind _ _ _), behind_behind, behind_behind,
    List.singleton_append, List.singleton_append, outcome_bind_of_ok hinitial,
    outcome_bind_of_ok (outcome_expect_terminal semicolon _ rfl), outcome_pure]
  simp

/-- A statement is read as a declaration, since it does not begin with `var`. -/
theorem reads_statement {inner : Derivation .statement} (h : ReadsStatement inner) :
    ReadsDeclaration (statement inner) := by
  intro levels c after hfits hahead hover
  have hvar : headKind c.ahead ≠ some .varWord := by
    rw [hahead]
    exact headKind_statement_ne_varWord inner after
  rw [outcome_attempt, isAt_eq_false hvar, if_neg (by decide)]
  exact h (fitsIn_statement.mp hfits) hahead hover

/-- No declarations are read where the list ends. -/
theorem reads_empty : ReadsDeclarations empty := by
  intro levels c after stop _ _ hahead _
  rw [tokens, List.nil_append] at hahead
  rw [← hahead]
  rfl

/-- One more declaration is read in one more round of the loop over declarations. -/
theorem reads_next {first : Derivation .declaration} {more : Derivation .declarations}
    (hfirst : ReadsDeclaration first) (hmore : ReadsDeclarations more) :
    ReadsDeclarations (next first more) := by
  intro levels c after stop hstop hfits hahead helse
  obtain ⟨hfirstFits, hmoreFits⟩ := fitsIn_next.mp hfits
  simp only [tokens, List.append_assoc] at hahead
  have hgoes : stop c = false := by
    obtain ⟨token, rest, htokens, hkind⟩ := first.exists_head_declaration
    refine hstop.goes_on c token (rest ++ (more.tokens ++ after)) ?_ fun hbrace => ?_
    · rw [hahead, htokens, List.cons_append]
    · rw [hbrace] at hkind
      cases hkind
  have hread := hfirst hfirstFits hahead (closes_declaration_next first more helse)
  rw [outcome_declarations_of_ok (nestedFollows levels) hstop hgoes hread,
    hmore hstop hmoreFits (ahead_behind _ _ _) helse, behind_behind]
  rfl

end Declarations

/-- Every derivation is read by the rule for its symbol. -/
theorem reads {s : Symbol} (d : Derivation s) : d.Reads := by
  induction d with
  | literal token => exact reads_literal token
  | reference token => exact reads_reference token
  | group _ _ _ h => exact reads_group h
  | chain _ _ hfirst hmore => exact reads_chain hfirst hmore
  | done => exact reads_done
  | operation _ _ _ _ _ hoperand hmore => exact reads_operation hoperand hmore
  | plain _ h => exact reads_plain h
  | assign _ _ _ htarget hvalue => exact reads_assign htarget hvalue
  | print _ _ _ h => exact reads_print h
  | ifThen _ _ _ _ _ hcondition hthen => exact reads_ifThen hcondition hthen
  | ifElse _ _ _ _ _ _ _ hcondition hthen helse => exact reads_ifElse hcondition hthen helse
  | loop _ _ _ _ _ hcondition hbody => exact reads_loop hcondition hbody
  | block _ _ _ h => exact reads_block h
  | evaluate _ _ h => exact reads_evaluate h
  | declare word name semicolon => exact reads_declare
  | define _ _ _ _ _ h => exact reads_define h
  | statement _ h => exact reads_statement h
  | empty => exact reads_empty
  | next _ _ hfirst hmore => exact reads_next hfirst hmore

end Derivation

end ScriptKit.Grammar
