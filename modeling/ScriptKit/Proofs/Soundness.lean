import ScriptKit.Proofs.Progress
import ScriptKit.Proofs.Unambiguous

/-!
# What the rules read, the grammar derives

If a rule succeeds without recording an error, then the tokens it passed have a derivation that
fits into the levels left and stands for the node that was read. `Derives` says so for one run; the
lemmas take the productions in turn and put the derivations of the parts together.

Errors are recorded inside blocks only, where each declaration recovers from its own. So the rules
for expressions need no condition on errors, and the others pass theirs on to their parts: what
has been recorded stays recorded.
-/

set_option autoImplicit false

namespace ScriptKit

open Cursor Parse

namespace Grammar

/-- From the first cursor to the second a derivation of the symbol was passed, and it stands for
the tree. -/
def Derives (levels : Nat) (s : Symbol) (tree : s.Tree) (c c' : Cursor) : Prop :=
  ∃ d : Derivation s, d.FitsIn levels ∧ d.tree = tree ∧ c.Moves d.tokens [] c'

/-- The same for a statement, where an `if` that could have taken an `else` has taken it. -/
def DerivesStatement (levels : Nat) (node : Node) (c c' : Cursor) : Prop :=
  ∃ d : Derivation .statement, d.FitsIn levels ∧ d.tree = node ∧ c.Moves d.tokens [] c' ∧
    d.Closes (headKind c'.ahead)

/-- The parsers one level further in read what the grammar derives there. -/
structure NestedDerives (levels : Nat) (inner : Nested) : Prop where
  group : ∀ {c c' : Cursor} {node : Node}, outcome inner.group c = (.ok node, c') →
    ∃ deeper, levels = deeper + 1 ∧ Derives deeper .expression node c c'
  body : ∀ {c c' : Cursor} {node : Node}, outcome inner.body c = (.ok node, c') →
    c'.errors = c.errors → ∃ deeper, levels = deeper + 1 ∧ DerivesStatement deeper node c c'
  block : ∀ {c c' : Cursor} {node : Node}, outcome inner.block c = (.ok node, c') →
    c'.errors = c.errors → DerivesStatement levels node c c'

/-- A met expectation passes a token of the kind. -/
theorem exists_terminal_of_outcome_expect {kind : Token.Kind} {complaint : Complaint}
    {c c' : Cursor} {token : Token} (h : outcome (expect kind complaint) c = (.ok token, c')) :
    ∃ terminal : Terminal kind, terminal.val = token ∧ c.Moves [terminal.val] [] c' := by
  obtain ⟨hkind, hahead, hbehind⟩ := ahead_of_outcome_expect h
  refine ⟨⟨token, hkind⟩, rfl, ?_⟩
  rw [hbehind]
  exact moves_pass hahead

/-- At a kind there is a token of that kind to be passed. -/
theorem exists_terminal_of_isAt {kind : Token.Kind} {c : Cursor} (h : c.isAt kind = true) :
    ∃ terminal : Terminal kind, ∃ rest, c.ahead = terminal.val :: rest ∧
      c.Moves [terminal.val] [] (c.behind [terminal.val] rest) := by
  obtain ⟨token, rest, hahead, hkind⟩ := exists_ahead_of_isAt h
  exact ⟨⟨token, hkind⟩, rest, hahead, moves_pass hahead⟩

section Expressions

variable {levels : Nat} {inner : Nested} {c c' : Cursor} {node : Node}

/-- A primary that was read is derived: a number, a name or a group. -/
theorem derives_primary (h : NestedDerives levels inner)
    (hout : outcome (primary inner) c = (.ok node, c')) :
    Derives levels (.operand 0) node c c' := by
  by_cases hnumber : c.isAt .number = true
  · obtain ⟨token, rest, hahead, hmoves⟩ := exists_terminal_of_isAt hnumber
    rw [outcome_primary_of_number hahead token.property, Prod.mk.injEq, Except.ok.injEq] at hout
    obtain ⟨rfl, rfl⟩ := hout
    exact ⟨.literal token, Derivation.fitsIn_leaf rfl rfl rfl, rfl, hmoves⟩
  by_cases hname : c.isAt .name = true
  · obtain ⟨token, rest, hahead, hmoves⟩ := exists_terminal_of_isAt hname
    rw [outcome_primary_of_name hahead token.property, Prod.mk.injEq, Except.ok.injEq] at hout
    obtain ⟨rfl, rfl⟩ := hout
    exact ⟨.reference token, Derivation.fitsIn_leaf rfl rfl rfl, rfl, hmoves⟩
  by_cases hparen : c.isAt .openParen = true
  · obtain ⟨opening, rest, hahead, hmoves⟩ := exists_terminal_of_isAt hparen
    rw [outcome_primary_of_openParen hahead opening.property] at hout
    obtain ⟨value, m, hgroup, hout⟩ := outcome_bind_eq_ok.mp hout
    obtain ⟨token, m', hclosing, hout⟩ := outcome_bind_eq_ok.mp hout
    obtain ⟨closing, -, hend⟩ := exists_terminal_of_outcome_expect hclosing
    obtain ⟨deeper, rfl, d, hfits, rfl, htokens⟩ := h.group hgroup
    rw [outcome_pure, Prod.mk.injEq, Except.ok.injEq] at hout
    obtain ⟨rfl, rfl⟩ := hout
    exact ⟨.group opening d closing, Derivation.fitsIn_group.mpr ⟨deeper, rfl, hfits⟩, rfl,
      (hmoves.trans htokens).trans hend⟩
  · rw [outcome_primary_of_other (by simpa using hnumber) (by simpa using hname)
      (by simpa using hparen)] at hout
    simp at hout

/-- The rest of a row, by the number of tokens ahead: each round passes one. -/
theorem derives_chainRest {row : Nat} (hfollows : Follows Glide (operandAt inner row))
    (h : ∀ {c c' : Cursor} {node : Node}, outcome (operandAt inner row) c = (.ok node, c') →
      Derives levels (.operand row) node c c') {left : Node}
    (hout : outcome (chainRest (operatorAt? row) (operandAt inner row) left) c = (.ok node, c')) :
    ∃ d : Derivation (.rest row), d.FitsIn levels ∧ d.tree left = node ∧
      c.Moves d.tokens [] c' := by
  induction hn : c.ahead.length using Nat.strongRecOn generalizing c left with
  | ind n ih =>
    cases hsign : c.ahead.head?.bind (operatorAt? row ·.kind) with
    | none =>
      rw [outcome_chainRest_of_none left hsign, Prod.mk.injEq, Except.ok.injEq] at hout
      obtain ⟨rfl, rfl⟩ := hout
      exact ⟨.done, Derivation.fitsIn_leaf rfl rfl rfl, rfl, Moves.refl c⟩
    | some op =>
      obtain ⟨sign, hhead, hop⟩ := Option.bind_eq_some_iff.mp hsign
      obtain ⟨rest, hahead⟩ := List.head?_eq_some_iff.mp hhead
      rw [outcome_chainRest_of_some hfollows left hahead hop] at hout
      obtain ⟨right, m, hright, hout⟩ := outcome_bind_eq_ok.mp hout
      obtain ⟨operand, hoperand, rfl, hmoves⟩ := h hright
      have hlt : m.ahead.length < n := by
        have hall := hmoves.ahead
        rw [ahead_behind] at hall
        rw [← hn, hahead, hall]
        simp only [List.length_cons, List.length_append]
        omega
      obtain ⟨more, hmore, rfl, hrest⟩ := ih m.ahead.length hlt hout rfl
      exact ⟨.operation sign op hop operand more,
        Derivation.fitsIn_operation.mpr ⟨hoperand, hmore⟩, rfl,
        ((moves_pass hahead).trans hmoves).trans hrest⟩

/-- An operand of any row that was read is derived, by induction on the row. -/
theorem derives_operandAt (hfollows : Follows Glide inner.group) (h : NestedDerives levels inner)
    (row : Nat) (hout : outcome (operandAt inner row) c = (.ok node, c')) :
    Derives levels (.operand row) node c c' := by
  induction row generalizing c c' node with
  | zero => exact derives_primary h hout
  | succ row ih =>
    rw [operandAt, chain_eq_chainRest] at hout
    obtain ⟨left, m, hleft, hout⟩ := outcome_bind_eq_ok.mp hout
    obtain ⟨first, hfirst, rfl, hmoves⟩ := ih hleft
    obtain ⟨more, hmore, rfl, hrest⟩ :=
      derives_chainRest (follows_operandAt hfollows row) (fun hout => ih hout) hout
    exact ⟨.chain first more, Derivation.fitsIn_chain.mpr ⟨hfirst, hmore⟩, rfl,
      hmoves.trans hrest⟩

/-- An expression that was read is derived, with an assignment or without one. -/
theorem derives_expression (hfollows : Follows Glide inner.group)
    (h : NestedDerives levels inner) (hout : outcome (expression inner) c = (.ok node, c')) :
    Derives levels .expression node c c' := by
  rw [expression_eq_assignRest] at hout
  obtain ⟨target, m, hleft, hout⟩ := outcome_bind_eq_ok.mp hout
  rw [equality_eq_operandAt] at hleft
  obtain ⟨left, hfits, rfl, hmoves⟩ := derives_operandAt hfollows h 4 hleft
  cases hmark : m.isAt .assign with
  | false =>
    rw [outcome_assignRest_of_not_assign _ hmark, Prod.mk.injEq, Except.ok.injEq] at hout
    obtain ⟨rfl, rfl⟩ := hout
    exact ⟨.plain left, Derivation.fitsIn_plain.mpr hfits, rfl, hmoves⟩
  | true =>
    obtain ⟨mark, rest, hahead, hpass⟩ := exists_terminal_of_isAt hmark
    rw [outcome_assignRest_of_assign _ hahead mark.property] at hout
    rcases hright : outcome inner.group (m.behind [mark.val] rest) with ⟨error | value, m'⟩
    · simp [hright] at hout
    rw [hright] at hout
    obtain ⟨deeper, rfl, right, hrightFits, rfl, hvalue⟩ := h.group hright
    cases htarget : assignment? left.tree right.tree with
    | none => simp [htarget] at hout
    | some assigned =>
      simp only [htarget, Prod.mk.injEq, Except.ok.injEq] at hout
      obtain ⟨rfl, rfl⟩ := hout
      have hvariable : Node.isVariable left.tree = true := by
        cases hnode : (left.tree : Node) <;> rw [hnode] at htarget <;>
          first | rfl | cases htarget
      refine ⟨.assign left mark right, ?_, ?_, ?_⟩
      · exact Derivation.fitsIn_assign.mpr ⟨hvariable, hfits, deeper, rfl, hrightFits⟩
      · rw [Derivation.tree, htarget, Option.getD_some]
      · rw [Derivation.tokens, List.append_cons]
        exact (hmoves.trans hpass).trans hvalue

end Expressions

section Statements

variable {levels : Nat} {inner : Nested} {c c' : Cursor} {node : Node}

/-- Reading an expression with an expected token behind it. -/
theorem derives_expression_end (hfollows : NestedFollows inner) (h : NestedDerives levels inner)
    {β : Type} {kind : Token.Kind} {complaint : Complaint} {next : Node → Token → Parse β} {b : β}
    (hout : outcome (do
      let value ← expression inner
      let token ← expect kind complaint
      next value token) c = (.ok b, c')) :
    ∃ (d : Derivation .expression) (token : Terminal kind) (m : Cursor), d.FitsIn levels ∧
      c.Moves (d.tokens ++ [token.val]) [] m ∧ outcome (next d.tree token.val) m = (.ok b, c') := by
  obtain ⟨value, m, hvalue, hout⟩ := outcome_bind_eq_ok.mp hout
  obtain ⟨token, m', htoken, hout⟩ := outcome_bind_eq_ok.mp hout
  obtain ⟨d, hfits, rfl, hmoves⟩ := derives_expression hfollows.group h hvalue
  obtain ⟨terminal, rfl, hend⟩ := exists_terminal_of_outcome_expect htoken
  exact ⟨d, terminal, m', hfits, hmoves.trans hend, hout⟩

/-- A statement that evaluates and was read is derived. -/
theorem derives_expressionStatement (hfollows : NestedFollows inner)
    (h : NestedDerives levels inner)
    (hout : outcome (expressionStatement inner) c = (.ok node, c')) :
    DerivesStatement levels node c c' := by
  rw [expressionStatement, outcome_get_bind] at hout
  obtain ⟨value, semicolon, m, hfits, hmoves, hout⟩ := derives_expression_end hfollows h hout
  rw [outcome_pure, Prod.mk.injEq, Except.ok.injEq] at hout
  obtain ⟨rfl, rfl⟩ := hout
  refine ⟨.evaluate value semicolon, Derivation.fitsIn_evaluate.mpr hfits, ?_, hmoves, nofun⟩
  obtain ⟨token, rest, htokens, -⟩ := value.exists_head_expression
  have hahead : c.ahead = token :: (rest ++ [semicolon.val] ++ m.ahead) := by
    rw [hmoves.ahead, htokens]
    rfl
  rw [Derivation.tree, htokens, line_of_ahead hahead]
  rfl

/-- A statement that prints and was read is derived. -/
theorem derives_printStatement (hfollows : NestedFollows inner) (h : NestedDerives levels inner)
    (hout : outcome (printStatement inner) c = (.ok node, c')) :
    DerivesStatement levels node c c' := by
  obtain ⟨token, m, hword, hout⟩ := outcome_bind_eq_ok.mp hout
  obtain ⟨word, rfl, hstart⟩ := exists_terminal_of_outcome_expect hword
  obtain ⟨value, semicolon, m', hfits, hmoves, hout⟩ := derives_expression_end hfollows h hout
  rw [outcome_pure, Prod.mk.injEq, Except.ok.injEq] at hout
  obtain ⟨rfl, rfl⟩ := hout
  exact ⟨.print word value semicolon, Derivation.fitsIn_print.mpr hfits, rfl,
    hstart.trans hmoves, nofun⟩

/-- Reading a keyword with a condition in parentheses behind it. -/
theorem derives_condition (hfollows : NestedFollows inner) (h : NestedDerives levels inner)
    {β : Type} {kind : Token.Kind} {complaint complaint' complaint'' : Complaint}
    {next : Token → Node → Parse β} {b : β}
    (hout : outcome (do
      let word ← expect kind complaint
      let _ ← expect .openParen complaint'
      let condition ← expression inner
      let _ ← expect .closeParen complaint''
      next word condition) c = (.ok b, c')) :
    ∃ (word : Terminal kind) (opening : Terminal .openParen) (condition : Derivation .expression)
      (closing : Terminal .closeParen) (m : Cursor), condition.FitsIn levels ∧
      c.Moves (word.val :: opening.val :: (condition.tokens ++ [closing.val])) [] m ∧
      outcome (next word.val condition.tree) m = (.ok b, c') := by
  obtain ⟨token, m, hword, hout⟩ := outcome_bind_eq_ok.mp hout
  obtain ⟨token', m', hopening, hout⟩ := outcome_bind_eq_ok.mp hout
  obtain ⟨word, rfl, hfirst⟩ := exists_terminal_of_outcome_expect hword
  obtain ⟨opening, rfl, hsecond⟩ := exists_terminal_of_outcome_expect hopening
  obtain ⟨condition, closing, m'', hfits, hmoves, hout⟩ := derives_expression_end hfollows h hout
  exact ⟨word, opening, condition, closing, m'', hfits, (hfirst.trans hsecond).trans hmoves, hout⟩

/-- A loop that was read without an error is derived. -/
theorem derives_whileStatement (hfollows : NestedFollows inner) (h : NestedDerives levels inner)
    (hout : outcome (whileStatement inner) c = (.ok node, c')) (herrors : c'.errors = c.errors) :
    DerivesStatement levels node c c' := by
  obtain ⟨word, opening, condition, closing, m, hcondition, hstart, hout⟩ :=
    derives_condition hfollows h hout
  obtain ⟨value, m', hbody, hout⟩ := outcome_bind_eq_ok.mp hout
  rw [outcome_pure, Prod.mk.injEq, Except.ok.injEq] at hout
  obtain ⟨rfl, rfl⟩ := hout
  obtain ⟨deeper, rfl, body, hfits, rfl, hmoves, hover⟩ :=
    h.body hbody (herrors.trans hstart.errors_eq.symm)
  refine ⟨.loop word opening condition closing body,
    Derivation.fitsIn_loop.mpr ⟨hcondition, deeper, rfl, hfits⟩, rfl, ?_, hover⟩
  have hall := hstart.trans hmoves
  simpa using hall

/-- A conditional that was read without an error is derived, and it has taken an `else` that
followed. -/
theorem derives_ifStatement (hfollows : NestedFollows inner) (h : NestedDerives levels inner)
    (hout : outcome (ifStatement inner) c = (.ok node, c')) (herrors : c'.errors = c.errors) :
    DerivesStatement levels node c c' := by
  obtain ⟨word, opening, condition, closing, m, hcondition, hstart, hout⟩ :=
    derives_condition hfollows h hout
  obtain ⟨value, m', hthen, hout⟩ := outcome_bind_eq_ok.mp hout
  have herrors' : c'.errors = m.errors := herrors.trans hstart.errors_eq.symm
  have hthenSteps := (hfollows.body m).of_ok hthen
  rw [outcome_get_bind] at hout
  cases helse : m'.isAt .elseWord with
  | false =>
    rw [helse, if_neg (by decide), outcome_pure, Prod.mk.injEq, Except.ok.injEq] at hout
    obtain ⟨rfl, rfl⟩ := hout
    obtain ⟨deeper, rfl, thenBranch, hfits, rfl, hmoves, -⟩ := h.body hthen herrors'
    refine ⟨.ifThen word opening condition closing thenBranch,
      Derivation.fitsIn_ifThen.mpr ⟨hcondition, deeper, rfl, hfits⟩, rfl, ?_, fun _ => ?_⟩
    · have hall := hstart.trans hmoves
      simpa using hall
    · rwa [isAt_eq_head, decide_eq_false_iff_not] at helse
  | true =>
    obtain ⟨otherwise, rest, hahead, hmark⟩ := exists_terminal_of_isAt helse
    rw [helse, if_pos rfl, outcome_advance_bind, advance_of_ahead hahead] at hout
    obtain ⟨value', m'', helseBranch, hout⟩ := outcome_bind_eq_ok.mp hout
    rw [outcome_pure, Prod.mk.injEq, Except.ok.injEq] at hout
    obtain ⟨rfl, rfl⟩ := hout
    have helseSteps : Steps m' m'' := by
      refine .head ?_ ((hfollows.body _).of_ok helseBranch)
      rw [← advance_of_ahead hahead]
      exact .pass m'
    have hmiddle := Steps.errors_eq hthenSteps helseSteps herrors'
    obtain ⟨deeper, rfl, thenBranch, hthenFits, rfl, hthenMoves, hover⟩ := h.body hthen hmiddle
    obtain ⟨deeper', hdeeper, elseBranch, helseFits, rfl, helseMoves, hover'⟩ :=
      h.body helseBranch (herrors'.trans hmiddle.symm)
    obtain rfl : deeper = deeper' := by omega
    -- An open `if` at the end of the branch would have taken this `else`.
    have hclosed : thenBranch.endsOpen = false := by
      rw [Bool.eq_false_iff]
      intro hopen
      refine hover hopen ?_
      rw [hahead, headKind_cons, otherwise.property]
    refine ⟨.ifElse word opening condition closing thenBranch otherwise elseBranch,
      Derivation.fitsIn_ifElse.mpr ⟨hclosed, hcondition, deeper, rfl, hthenFits, helseFits⟩, rfl,
      ?_, hover'⟩
    have hall := ((hstart.trans hthenMoves).trans hmark).trans helseMoves
    simpa using hall

/-- A statement that was read without an error is derived, whichever rule its first token
selected. -/
theorem derives_statement (hfollows : NestedFollows inner) (h : NestedDerives levels inner)
    (hout : outcome (statement inner) c = (.ok node, c')) (herrors : c'.errors = c.errors) :
    DerivesStatement levels node c c' := by
  rw [outcome_statement] at hout
  split_ifs at hout
  · exact derives_printStatement hfollows h hout
  · exact derives_ifStatement hfollows h hout herrors
  · exact derives_whileStatement hfollows h hout herrors
  · exact h.block hout herrors
  · exact derives_expressionStatement hfollows h hout

end Statements

section Declarations

variable {levels : Nat} {inner : Nested} {c c' : Cursor} {node : Node}

/-- A declaration of a variable that was read is derived. -/
theorem derives_varDeclaration (hfollows : NestedFollows inner) (h : NestedDerives levels inner)
    (hout : outcome (varDeclaration inner) c = (.ok node, c')) :
    Derives levels .declaration node c c' := by
  obtain ⟨token, m, hword, hout⟩ := outcome_bind_eq_ok.mp hout
  obtain ⟨token', m', hname, hout⟩ := outcome_bind_eq_ok.mp hout
  obtain ⟨word, rfl, hfirst⟩ := exists_terminal_of_outcome_expect hword
  obtain ⟨name, rfl, hsecond⟩ := exists_terminal_of_outcome_expect hname
  rw [outcome_get_bind] at hout
  cases hmark : m'.isAt .assign with
  | false =>
    rw [hmark, if_neg (by decide)] at hout
    obtain ⟨token, m'', hend, hout⟩ := outcome_bind_eq_ok.mp hout
    obtain ⟨semicolon, rfl, hthird⟩ := exists_terminal_of_outcome_expect hend
    rw [outcome_pure, Prod.mk.injEq, Except.ok.injEq] at hout
    obtain ⟨rfl, rfl⟩ := hout
    exact ⟨.declare word name semicolon, Derivation.fitsIn_leaf rfl rfl rfl, rfl,
      (hfirst.trans hsecond).trans hthird⟩
  | true =>
    obtain ⟨mark, rest, hahead, hthird⟩ := exists_terminal_of_isAt hmark
    rw [hmark, if_pos rfl, outcome_advance_bind, advance_of_ahead hahead] at hout
    obtain ⟨initial, semicolon, m'', hfits, hmoves, hout⟩ := derives_expression_end hfollows h hout
    rw [outcome_pure, Prod.mk.injEq, Except.ok.injEq] at hout
    obtain ⟨rfl, rfl⟩ := hout
    exact ⟨.define word name mark initial semicolon, Derivation.fitsIn_define.mpr hfits, rfl,
      ((hfirst.trans hsecond).trans hthird).trans hmoves⟩

/-- An attempt that succeeded without an error has read what the grammar derives. -/
theorem derives_attempt (hfollows : NestedFollows inner) (h : NestedDerives levels inner)
    (hout : outcome (attempt inner) c = (.ok node, c')) (herrors : c'.errors = c.errors) :
    Derives levels .declaration node c c' := by
  rw [outcome_attempt] at hout
  split_ifs at hout
  · exact derives_varDeclaration hfollows h hout
  · obtain ⟨d, hfits, rfl, hmoves, -⟩ := derives_statement hfollows h hout herrors
    exact ⟨.statement d, Derivation.fitsIn_statement.mpr hfits, rfl, hmoves⟩

/-- After a failed attempt the list of declarations ends with an error recorded. -/
theorem errors_ne_of_outcome_error {stop : Cursor → Bool} (hfollows : NestedFollows inner)
    {m : Cursor} {error : SyntaxError} (hout : outcome (attempt inner) c = (.error error, m)) :
    (Walk.outcome (declarations stop (declaration inner)) (m.recover error)).2.errors ≠
      c.errors := by
  obtain ⟨_, found, hbefore⟩ := Steps.exists_moves ((strides_attempt hfollows).follows.steps hout)
  obtain ⟨_, hrecover, -⟩ := exists_moves_recover m error
  obtain ⟨_, later, hafter⟩ :=
    Steps.exists_moves (steps_declarations stop hfollows (m.recover error))
  intro herrors
  have hall := ((hbefore.trans hrecover).trans hafter).errors
  rw [herrors, List.self_eq_append_right] at hall
  simp at hall

/-- A list of declarations that records no error is derived, and it ends where it should. -/
theorem derives_declarations {stop : Cursor → Bool} (hstop : EndsList stop)
    (hfollows : NestedFollows inner) (h : NestedDerives levels inner) {nodes : List Node}
    (hout : Walk.outcome (declarations stop (declaration inner)) c = (nodes, c'))
    (herrors : c'.errors = c.errors) :
    Derives levels .declarations nodes c c' ∧ stop c' = true := by
  induction hn : c.ahead.length using Nat.strongRecOn generalizing c nodes with
  | ind n ih =>
    cases hat : stop c with
    | true =>
      rw [outcome_declarations_of_stop hat, Prod.mk.injEq] at hout
      obtain ⟨rfl, rfl⟩ := hout
      exact ⟨⟨.empty, Derivation.fitsIn_leaf rfl rfl rfl, rfl, Moves.refl c⟩, hat⟩
    | false =>
      rcases hfirst : outcome (attempt inner) c with ⟨error | node, m⟩
      · rw [outcome_declarations_of_error hfollows hstop hat hfirst, Prod.mk.injEq] at hout
        obtain ⟨-, rfl⟩ := hout
        exact absurd herrors (errors_ne_of_outcome_error hfollows hfirst)
      · rcases hrest : Walk.outcome (declarations stop (declaration inner)) m with ⟨rest, last⟩
        rw [outcome_declarations_of_ok hfollows hstop hat hfirst, hrest, Prod.mk.injEq] at hout
        obtain ⟨rfl, rfl⟩ := hout
        have hstart := ((strides_attempt hfollows).follows c).of_ok hfirst
        have hgoes : Steps m last := by
          have hsteps := steps_declarations stop hfollows m
          rwa [hrest] at hsteps
        -- Errors are never taken back, so there were none between the first and the rest.
        have hmiddle := Steps.errors_eq hstart hgoes herrors
        obtain ⟨first, hfirstFits, rfl, hfirstMoves⟩ := derives_attempt hfollows h hfirst hmiddle
        have hshorter : m.ahead.length < n :=
          hn ▸ (strides_attempt hfollows).length_lt c _ m hfirst
        obtain ⟨⟨more, hmoreFits, rfl, hmoreMoves⟩, hend⟩ :=
          ih m.ahead.length hshorter hrest (herrors.trans hmiddle.symm) rfl
        exact ⟨⟨.next first more, Derivation.fitsIn_next.mpr ⟨hfirstFits, hmoreFits⟩, rfl,
          hfirstMoves.trans hmoreMoves⟩, hend⟩

/-- A block that was read without an error is derived, one level further out than its
declarations. -/
theorem derives_braced (hfollows : NestedFollows inner) (h : NestedDerives levels inner)
    (hout : outcome (braced (declaration inner)) c = (.ok node, c'))
    (herrors : c'.errors = c.errors) : DerivesStatement (levels + 1) node c c' := by
  cases hmark : c.isAt .openBrace with
  | false => simp [outcome_braced_of_not_isAt hmark] at hout
  | true =>
    obtain ⟨opening, rest, hahead, hfirst⟩ := exists_terminal_of_isAt hmark
    rcases hlist : Walk.outcome (declarations blockEnd (declaration inner))
      (c.behind [opening.val] rest) with ⟨nodes, m⟩
    rw [outcome_braced_of_ahead hahead opening.property, hlist] at hout
    obtain ⟨token, m', hclosing, hout⟩ := outcome_bind_eq_ok.mp hout
    obtain ⟨closing, -, hlast⟩ := exists_terminal_of_outcome_expect hclosing
    rw [outcome_pure, Prod.mk.injEq, Except.ok.injEq] at hout
    obtain ⟨rfl, rfl⟩ := hout
    obtain ⟨⟨d, hfits, rfl, hmoves⟩, -⟩ := derives_declarations endsList_blockEnd hfollows h hlist
      (hlast.errors_eq.symm.trans herrors)
    exact ⟨.block opening d closing, Derivation.fitsIn_block.mpr ⟨levels, rfl, hfits⟩, rfl,
      (hfirst.trans hmoves).trans hlast, nofun⟩

end Declarations

/-- The parsers of every level read what the grammar derives. -/
theorem nestedDerives (levels : Nat) : NestedDerives levels (nested levels) := by
  induction levels with
  | zero =>
    refine ⟨fun hout => ?_, fun hout _ => ?_, fun hout _ => ?_⟩ <;> simp [nested] at hout
  | succ levels ih =>
    have hfollows := nestedFollows levels
    refine ⟨fun hout => ?_, fun hout herrors => ?_, fun hout herrors => ?_⟩
    · exact ⟨levels, rfl, derives_expression hfollows.group ih hout⟩
    · exact ⟨levels, rfl, derives_statement hfollows ih hout herrors⟩
    · exact derives_braced hfollows ih hout herrors

end Grammar

end ScriptKit
