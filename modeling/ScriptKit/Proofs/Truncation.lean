import ScriptKit.Proofs.GrammarCorrect

/-!
# Texts that stop in the middle

Take a text that is read without an error, and cut it off somewhere. Reading what is left goes the
same way up to the cut, and whatever is wrong from there on is wrong because the text has ended:
every error is about the end.

`CutShort` says this for one action. An action that succeeds in the whole text without recording an
error either does the same in the text that was cut off, or it comes to the end there. The actions
behind it then find nothing but the end, and that they complain about nothing else follows from the
way they go.
-/

set_option autoImplicit false

namespace ScriptKit

open Relation (ReflTransGen)

namespace Cursor

variable {cut : List Token} {c c' m m' : Cursor}

/-- The second cursor is at the same place as the first one, in a text without the tokens that were
cut off. -/
structure Shortens (cut : List Token) (c c' : Cursor) : Prop where
  file_eq : c'.file = c.file
  passed_eq : c'.passed = c.passed
  ahead_eq : c.ahead = c'.ahead ++ cut
  errors_eq : c'.errors = c.errors

/-- The second cursor is at the end of the text, and since the first one only errors about the end
were recorded. -/
structure RunsOut (c m : Cursor) : Prop where
  ahead_eq : m.ahead = []
  errors : ∃ late, m.errors.toList = c.errors.toList ++ late ∧
    ∀ error ∈ late, error.atEnd = true

/-- A cursor at the end has run out without a further error. -/
theorem RunsOut.refl (h : c.ahead = []) : RunsOut c c := ⟨h, [], by simp, by simp⟩

/-- Running out twice is running out. -/
theorem RunsOut.trans (h : RunsOut c m) (h' : RunsOut m m') : RunsOut c m' := by
  obtain ⟨late, hlate, hends⟩ := h.errors
  obtain ⟨late', hlate', hends'⟩ := h'.errors
  refine ⟨h'.ahead_eq, late ++ late', by rw [hlate', hlate, List.append_assoc], ?_⟩
  intro error herror
  rcases List.mem_append.mp herror with herror | herror
  · exact hends error herror
  · exact hends' error herror

/-- Only the recorded errors of the first cursor matter. -/
theorem RunsOut.of_errors_eq (h : RunsOut m m') (herrors : m.errors = c.errors) : RunsOut c m' :=
  ⟨h.ahead_eq, herrors ▸ h.errors⟩

/-- At the end recovery only records its error. -/
theorem RunsOut.recover (h : RunsOut c m) {error : SyntaxError} (herror : error.atEnd = true) :
    RunsOut c (m.recover error) := by
  obtain ⟨tokens, hmoves, -⟩ := exists_moves_recover m error
  have hnil := hmoves.ahead
  rw [h.ahead_eq, List.nil_eq_append_iff] at hnil
  exact h.trans ⟨hnil.2, [error], hmoves.errors, by simpa using herror⟩

/-- A complaint at the end is about the end. -/
theorem atEnd_errorHere (h : c.ahead = []) (complaint : Complaint) :
    (c.errorHere complaint).atEnd = true := by
  simp [errorHere, SyntaxError.atEnd, current?_of_ahead_nil h]

/-- From the end every way leads nowhere else. -/
theorem RunsOut.of_steps (hend : c.ahead = []) (h : Steps c m) : RunsOut c m := by
  induction h with
  | refl => exact .refl hend
  | @tail m _ _ hstep ih =>
    cases hstep with
    | pass =>
      rw [advance_of_ahead_nil ih.ahead_eq]
      exact ih
    | recover complaint hglides =>
      obtain ⟨tokens, hmoves, -⟩ := Glides.exists_moves hglides
      have hahead := hmoves.ahead
      rw [ih.ahead_eq, List.nil_eq_append_iff] at hahead
      exact (ih.trans ⟨hahead.2, [], hmoves.errors, by simp⟩).recover
        (atEnd_errorHere ih.ahead_eq complaint)

/-- In front of a token that was not cut off, the whole text goes on in the same way. -/
theorem Shortens.pass (h : c.Shortens cut c') {token : Token} {rest : List Token}
    (hahead : c'.ahead = token :: rest) :
    c.ahead = token :: (rest ++ cut) ∧
      (c.behind [token] (rest ++ cut)).Shortens cut (c'.behind [token] rest) := by
  have hc : c.ahead = token :: (rest ++ cut) := by rw [h.ahead_eq, hahead, List.cons_append]
  exact ⟨hc, h.file_eq, by simp [h.passed_eq], rfl, h.errors_eq⟩

/-- As long as the shorter text goes on, both cursors are at the same kinds. -/
theorem Shortens.isAt_eq (h : c.Shortens cut c') (hahead : c'.ahead ≠ []) (kind : Token.Kind) :
    c'.isAt kind = c.isAt kind := by
  obtain ⟨token, rest, hc'⟩ := List.exists_cons_of_ne_nil hahead
  rw [isAt_of_ahead kind hc', isAt_of_ahead kind (h.pass hc').1]

end Cursor

namespace Parse

open Cursor

variable {α β : Type} {cut : List Token} {c c' : Cursor}

/-- The outcome is at the end of the text, and all that went wrong is about the end. -/
def EndsEarly (c : Cursor) (result : Except SyntaxError α × Cursor) : Prop :=
  RunsOut c result.2 ∧ ∀ error, result.1 = .error error → error.atEnd = true

/-- Only the recorded errors of the first cursor matter. -/
theorem EndsEarly.of_errors_eq {m : Cursor} {result : Except SyntaxError α × Cursor}
    (h : EndsEarly m result) (herrors : m.errors = c.errors) : EndsEarly c result :=
  ⟨h.1.of_errors_eq herrors, h.2⟩

/-- An action at the end finds nothing but the end. -/
theorem Follows.endsEarly {action : Parse α} (h : Follows Step action) (hend : c.ahead = []) :
    EndsEarly c (outcome action c) := by
  rcases hout : outcome action c with ⟨error | a, m⟩
  · obtain ⟨raised, complaint, hraised, hglides, rfl⟩ := (h c).of_error hout
    refine ⟨.of_steps hend (hraised.trans (Glides.steps hglides)), ?_⟩
    rintro _ ⟨⟩
    exact atEnd_errorHere (RunsOut.of_steps hend hraised).ahead_eq complaint
  · exact ⟨.of_steps hend ((h c).of_ok hout), by simp⟩

/-- If the action succeeds at the first cursor without recording an error, then at the second one
it ends early or does the same. -/
def CutAt (cut : List Token) (action : Parse α) (c c' : Cursor) : Prop :=
  ∀ a m, outcome action c = (.ok a, m) → m.errors = c.errors →
    EndsEarly c' (outcome action c') ∨ ∃ m', outcome action c' = (.ok a, m') ∧ m.Shortens cut m'

/-- The action does the same in a text that is cut off, or ends early there. -/
structure CutShort (cut : List Token) (action : Parse α) : Prop where
  follows : Follows Step action
  cutAt : ∀ c c', c.Shortens cut c' → CutAt cut action c c'

/-- Actions that succeed alike, at cursors that still correspond, are no different. -/
theorem CutAt.of_ok {action : Parse α} {a : α} {m m' : Cursor}
    (heq : outcome action c = (.ok a, m)) (heq' : outcome action c' = (.ok a, m'))
    (h : m.Shortens cut m') : CutAt cut action c c' := by
  intro b middle hout _
  rw [heq, Prod.mk.injEq, Except.ok.injEq] at hout
  obtain ⟨rfl, rfl⟩ := hout
  exact .inr ⟨m', heq', h⟩

/-- Actions that go on like another one behind the same token. -/
theorem CutAt.of_behind {action next : Parse α} {tokens rest rest' : List Token}
    (h : CutAt cut next (c.behind tokens rest) (c'.behind tokens rest'))
    (heq : outcome action c = outcome next (c.behind tokens rest))
    (heq' : outcome action c' = outcome next (c'.behind tokens rest')) : CutAt cut action c c' := by
  intro a m hout herrors
  rw [heq] at hout
  rw [heq']
  exact (h a m hout herrors).imp_left fun hends => hends.of_errors_eq rfl

/-- Only what an action does in front of a token that was not cut off has to be looked at. -/
theorem CutShort.of_ahead {action : Parse α} (follows : Follows Step action)
    (h : ∀ c c', c.Shortens cut c' → c'.ahead ≠ [] → CutAt cut action c c') :
    CutShort cut action := by
  refine ⟨follows, fun c c' hc => ?_⟩
  by_cases hahead : c'.ahead = []
  · exact fun _ _ _ _ => .inl (follows.endsEarly hahead)
  · exact h c c' hc hahead

/-- Returning a value is no different in a text that is cut off. -/
theorem cutShort_pure (a : α) : CutShort cut (pure a : Parse α) := by
  exact ⟨fun c => followsAt_pure a c, fun c c' hc => .of_ok rfl rfl hc⟩

/-- Raising an error is no success that could be different. -/
theorem cutShort_fail (complaint : Complaint) : CutShort cut (fail complaint : Parse α) := by
  refine ⟨fun c => followsAt_fail complaint c, fun c c' _ a m hout _ => ?_⟩
  simp at hout

/-- An expectation is met in the shorter text too, or fails at its end. -/
theorem cutShort_expect (kind : Token.Kind) (complaint : Complaint) :
    CutShort cut (expect kind complaint) := by
  refine .of_ahead (follows_expect kind complaint) fun c c' hc hahead token m hout _ => ?_
  obtain ⟨token', rest, hc'⟩ := List.exists_cons_of_ne_nil hahead
  obtain ⟨hnext, hpass⟩ := hc.pass hc'
  obtain ⟨rfl, htoken, hm⟩ := ahead_of_outcome_expect hout
  rw [hnext, List.cons.injEq] at htoken
  obtain ⟨rfl, hrest⟩ := htoken
  rw [← hrest] at hm
  exact .inr ⟨_, outcome_expect_of_ahead complaint hc', hm ▸ hpass⟩

/-- Chains are cut short if their parts are, the second one where the first one leads. -/
theorem CutAt.bind {action : Parse α} {next : α → Parse β} (hc : c.Shortens cut c')
    (hfollows : Follows Step action) (hnextFollows : ∀ a, Follows Step (next a))
    (h : CutAt cut action c c')
    (hnext : ∀ a m m', outcome action c = (.ok a, m) → m.Shortens cut m' →
      CutAt cut (next a) m m') : CutAt cut (action >>= next) c c' := by
  intro b m hout herrors
  obtain ⟨a, middle, hfirst, hsecond⟩ := outcome_bind_eq_ok.mp hout
  have hmiddle : middle.errors = c.errors := Steps.errors_eq ((hfollows c).of_ok hfirst)
    ((hnextFollows a middle).of_ok hsecond) herrors
  rcases h a middle hfirst hmiddle with hends | ⟨middle', hfirst', hshort⟩
  · left
    rcases hfirst' : outcome action c' with ⟨error | a', middle'⟩
    · rw [hfirst'] at hends
      rw [outcome_bind_of_error hfirst']
      exact ⟨hends.1, fun other hother => hends.2 other (by simpa using hother)⟩
    · rw [hfirst'] at hends
      rw [outcome_bind_of_ok hfirst']
      have hrest := (hnextFollows a').endsEarly hends.1.ahead_eq
      exact ⟨hends.1.trans hrest.1, hrest.2⟩
  · rw [outcome_bind_of_ok hfirst']
    refine (hnext a middle middle' hfirst hshort b m hsecond
      (herrors.trans hmiddle.symm)).imp_left fun hends => hends.of_errors_eq ?_
    rw [hshort.errors_eq, hmiddle, hc.errors_eq]

/-- Chains are cut short if their parts are. -/
theorem CutShort.bind {action : Parse α} {next : α → Parse β} (h : CutShort cut action)
    (hnext : ∀ a, CutShort cut (next a)) : CutShort cut (action >>= next) :=
  ⟨h.follows.bind fun a => (hnext a).follows, fun c c' hc =>
    (h.cutAt c c' hc).bind hc h.follows (fun a => (hnext a).follows) fun a m m' _ =>
      (hnext a).cutAt m m'⟩

/-- Actions that look at the next token are cut short if both of their branches are. -/
theorem cutShort_if_isAt {kind : Token.Kind} {first second : Parse α} (hfirst : CutShort cut first)
    (hsecond : CutShort cut second) :
    CutShort cut (do if (← get).isAt kind then first else second) := by
  refine .of_ahead (fun c => followsAt_get_bind ?_) fun c c' hc hahead => ?_
  · split_ifs
    · exact hfirst.follows c
    · exact hsecond.follows c
  · rw [CutAt, outcome_get_bind, outcome_get_bind, hc.isAt_eq hahead]
    split_ifs
    · exact hfirst.cutAt c c' hc
    · exact hsecond.cutAt c c' hc

/-- Passing a token leaves corresponding cursors, or the shorter text has ended. -/
theorem cutShort_advance_bind {next : Unit → Parse α} (h : CutShort cut (next ())) :
    CutShort cut (advance >>= next) := by
  refine .of_ahead (fun c => followsAt_advance_bind (Step.pass c) (h.follows _))
    fun c c' hc hahead => ?_
  obtain ⟨token, rest, hc'⟩ := List.exists_cons_of_ne_nil hahead
  obtain ⟨hnext, hpass⟩ := hc.pass hc'
  exact .of_behind (h.cutAt _ _ hpass)
    (by rw [outcome_advance_bind, advance_of_ahead hnext])
    (by rw [outcome_advance_bind, advance_of_ahead hc'])

end Parse

namespace Grammar

open Cursor Parse

/-- The parsers one level further in are cut short. -/
structure NestedCut (cut : List Token) (inner : Nested) : Prop where
  group : CutShort cut inner.group
  body : CutShort cut inner.body
  block : CutShort cut inner.block

section Expressions

variable {cut : List Token} {inner : Nested}

/-- Primaries are cut short. -/
theorem cutShort_primary (hfollows : Follows Glide inner.group) (h : CutShort cut inner.group) :
    CutShort cut (primary inner) := by
  refine .of_ahead (follows_primary hfollows).toStep fun c c' hc hahead => ?_
  obtain ⟨token, rest, hc'⟩ := List.exists_cons_of_ne_nil hahead
  obtain ⟨hnext, hpass⟩ := hc.pass hc'
  have hat (kind : Token.Kind) : c.isAt kind = decide (token.kind = kind) :=
    isAt_of_ahead kind hnext
  by_cases hnumber : token.kind = .number
  · exact .of_ok (outcome_primary_of_number hnext hnumber) (outcome_primary_of_number hc' hnumber)
      hpass
  by_cases hname : token.kind = .name
  · exact .of_ok (outcome_primary_of_name hnext hname) (outcome_primary_of_name hc' hname) hpass
  by_cases hparen : token.kind = .openParen
  · refine .of_behind ((h.bind fun node => ?_).cutAt _ _ hpass)
      (outcome_primary_of_openParen hnext hparen) (outcome_primary_of_openParen hc' hparen)
    exact (cutShort_expect _ _).bind fun _ => cutShort_pure node
  · intro node m hout _
    rw [outcome_primary_of_other (by simp [hat, hnumber]) (by simp [hat, hname])
      (by simp [hat, hparen])] at hout
    simp at hout

/-- The rest of a row, by the number of tokens ahead: each round passes one. -/
theorem cutShort_chainRest {row : Nat} (hfollows : Follows Glide (operandAt inner row))
    (h : CutShort cut (operandAt inner row)) (left : Node) :
    CutShort cut (chainRest (operatorAt? row) (operandAt inner row) left) := by
  have hrest (left : Node) :
      Follows Step (chainRest (operatorAt? row) (operandAt inner row) left) := fun c =>
    followsAt_get_bind ((follows_chainFrom (fun _ _ => inExpression_of_operatorAt?) hfollows c.ahead
      left).toStep c)
  refine ⟨hrest left, fun c c' hc => ?_⟩
  induction hn : c.ahead.length using Nat.strongRecOn generalizing c c' left with
  | ind n ih =>
    by_cases hahead : c'.ahead = []
    · exact fun _ _ _ _ => .inl ((hrest left).endsEarly hahead)
    obtain ⟨token, rest, hc'⟩ := List.exists_cons_of_ne_nil hahead
    obtain ⟨hnext, hpass⟩ := hc.pass hc'
    cases hop : operatorAt? row token.kind with
    | none =>
      have hsign : c.ahead.head?.bind (operatorAt? row ·.kind) = none := by simp [hnext, hop]
      have hsign' : c'.ahead.head?.bind (operatorAt? row ·.kind) = none := by simp [hc', hop]
      exact .of_ok (outcome_chainRest_of_none left hsign) (outcome_chainRest_of_none left hsign') hc
    | some op =>
      refine .of_behind (.bind hpass hfollows.toStep (fun _ => hrest _) (h.cutAt _ _ hpass) ?_)
        (outcome_chainRest_of_some hfollows left hnext hop)
        (outcome_chainRest_of_some hfollows left hc' hop)
      intro right m m' hright hm
      have hlt : m.ahead.length < n := by
        have hle := Steps.length_le ((hfollows.toStep _).of_ok hright)
        rw [ahead_behind] at hle
        rw [← hn, hnext, List.length_cons]
        omega
      exact ih m.ahead.length hlt _ m m' hm rfl

/-- Operands of every row are cut short. -/
theorem cutShort_operandAt (hfollows : Follows Glide inner.group) (h : CutShort cut inner.group)
    (row : Nat) : CutShort cut (operandAt inner row) := by
  induction row with
  | zero => exact cutShort_primary hfollows h
  | succ row ih =>
    exact ih.bind fun first => cutShort_chainRest (follows_operandAt hfollows row) ih first

/-- Whether a target can be assigned to does not depend on the value. -/
theorem isSome_assignment?_congr (target value value' : Node) :
    (assignment? target value').isSome = (assignment? target value).isSome := by
  cases target <;> rfl

/-- The text may end before the assignment mark, within the value or behind it. -/
theorem cutShort_assignRest (hfollows : Follows Glide inner.group) (h : CutShort cut inner.group)
    (target : Node) : CutShort cut (assignRest inner target) := by
  refine .of_ahead (follows_assignRest hfollows target).toStep fun c c' hc hahead => ?_
  obtain ⟨mark, rest, hc'⟩ := List.exists_cons_of_ne_nil hahead
  obtain ⟨hnext, hpass⟩ := hc.pass hc'
  by_cases hmark : mark.kind = .assign
  · intro node m hout herrors
    rw [outcome_assignRest_of_assign target hnext hmark] at hout
    rw [outcome_assignRest_of_assign target hc' hmark]
    rcases hvalue : outcome inner.group (c.behind [mark] (rest ++ cut)) with ⟨error | value, m₁⟩
    · simp [hvalue] at hout
    rw [hvalue] at hout
    cases hassign : assignment? target value with
    | none => simp [hassign] at hout
    | some assigned =>
      simp only [hassign, Prod.mk.injEq, Except.ok.injEq] at hout
      obtain ⟨rfl, rfl⟩ := hout
      rcases h.cutAt _ _ hpass value m₁ hvalue herrors with hends | ⟨m', hvalue', hm⟩
      · left
        rcases hvalue' : outcome inner.group (c'.behind [mark] rest) with ⟨error' | value', m'⟩
        · rw [hvalue'] at hends
          refine ⟨hends.1.of_errors_eq rfl, fun other hother => hends.2 other ?_⟩
          simpa using hother
        · rw [hvalue'] at hends
          -- A shorter value was read; the target is the one that the whole text accepts.
          obtain ⟨assigned', hassign'⟩ : ∃ node, assignment? target value' = some node := by
            rw [← Option.isSome_iff_exists, isSome_assignment?_congr target value, hassign]
            rfl
          simp only [hassign']
          exact ⟨hends.1.of_errors_eq rfl, by simp⟩
      · right
        simp only [hvalue', hassign]
        exact ⟨m', rfl, hm⟩
  · have hat : c.isAt .assign = false := by simp [isAt_of_ahead _ hnext, hmark]
    have hat' : c'.isAt .assign = false := by simp [isAt_of_ahead _ hc', hmark]
    exact .of_ok (outcome_assignRest_of_not_assign target hat)
      (outcome_assignRest_of_not_assign target hat') hc

/-- Expressions are cut short. -/
theorem cutShort_expression (hfollows : Follows Glide inner.group) (h : CutShort cut inner.group) :
    CutShort cut (expression inner) :=
  (cutShort_operandAt hfollows h 4).bind (cutShort_assignRest hfollows h)

end Expressions

section Statements

variable {cut : List Token} {inner : Nested}

/-- Expressions and the token behind them are cut short. -/
theorem cutShort_expression_end (hfollows : NestedFollows inner) (h : NestedCut cut inner)
    (kind : Token.Kind) (complaint : Complaint) {next : Node → Parse Node}
    (hnext : ∀ value, CutShort cut (next value)) :
    CutShort cut (do
      let value ← expression inner
      let _ ← expect kind complaint
      next value) :=
  (cutShort_expression hfollows.group h.group).bind fun value =>
    (cutShort_expect _ _).bind fun _ => hnext value

/-- Statements that evaluate are cut short. -/
theorem cutShort_expressionStatement (hfollows : NestedFollows inner) (h : NestedCut cut inner) :
    CutShort cut (expressionStatement inner) := by
  refine .of_ahead (strides_expressionStatement hfollows).follows fun c c' hc hahead => ?_
  obtain ⟨token, rest, hc'⟩ := List.exists_cons_of_ne_nil hahead
  have hline : c'.line = c.line := by
    rw [line_of_ahead hc', line_of_ahead (hc.pass hc').1]
  rw [CutAt, expressionStatement, outcome_get_bind, outcome_get_bind, hline]
  exact (cutShort_expression_end hfollows h _ _ fun value => cutShort_pure _).cutAt c c' hc

/-- Statements that print are cut short. -/
theorem cutShort_printStatement (hfollows : NestedFollows inner) (h : NestedCut cut inner) :
    CutShort cut (printStatement inner) :=
  (cutShort_expect _ _).bind fun _ =>
    cutShort_expression_end hfollows h _ _ fun _ => cutShort_pure _

/-- Conditionals are cut short. If a text ends in front of an `else`, the shorter conditional is
read to its end. -/
theorem cutShort_ifStatement (hfollows : NestedFollows inner) (h : NestedCut cut inner) :
    CutShort cut (ifStatement inner) := by
  refine (cutShort_expect _ _).bind fun word => (cutShort_expect _ _).bind fun _ => ?_
  refine cutShort_expression_end hfollows h _ _ fun condition => ?_
  refine h.body.bind fun thenBranch => cutShort_if_isAt (cutShort_advance_bind ?_) ?_
  · exact h.body.bind fun elseBranch => cutShort_pure _
  · exact cutShort_pure _

/-- Loops are cut short. -/
theorem cutShort_whileStatement (hfollows : NestedFollows inner) (h : NestedCut cut inner) :
    CutShort cut (whileStatement inner) := by
  refine (cutShort_expect _ _).bind fun word => (cutShort_expect _ _).bind fun _ => ?_
  refine cutShort_expression_end hfollows h _ _ fun condition => ?_
  exact h.body.bind fun body => cutShort_pure _

/-- Statements are cut short, whichever rule the first token selects. -/
theorem cutShort_statement (hfollows : NestedFollows inner) (h : NestedCut cut inner) :
    CutShort cut (statement inner) := by
  refine .of_ahead (strides_statement hfollows).follows fun c c' hc hahead => ?_
  rw [CutAt, outcome_statement, outcome_statement]
  simp only [hc.isAt_eq hahead]
  split_ifs
  · exact (cutShort_printStatement hfollows h).cutAt c c' hc
  · exact (cutShort_ifStatement hfollows h).cutAt c c' hc
  · exact (cutShort_whileStatement hfollows h).cutAt c c' hc
  · exact h.block.cutAt c c' hc
  · exact (cutShort_expressionStatement hfollows h).cutAt c c' hc

/-- Declarations of variables are cut short. -/
theorem cutShort_varDeclaration (hfollows : NestedFollows inner) (h : NestedCut cut inner) :
    CutShort cut (varDeclaration inner) := by
  refine (cutShort_expect _ _).bind fun word => (cutShort_expect _ _).bind fun name => ?_
  refine cutShort_if_isAt (cutShort_advance_bind ?_) ?_
  · exact cutShort_expression_end hfollows h _ _ fun initial => cutShort_pure _
  · exact (cutShort_expect _ _).bind fun _ => cutShort_pure _

/-- Attempts at a declaration are cut short. -/
theorem cutShort_attempt (hfollows : NestedFollows inner) (h : NestedCut cut inner) :
    CutShort cut (attempt inner) :=
  cutShort_if_isAt (cutShort_varDeclaration hfollows h) (cutShort_statement hfollows h)

end Statements

section Declarations

variable {cut : List Token} {inner : Nested}

/-- A list of declarations that records no error in the whole text does the same in the text that
was cut off, or comes to its end. -/
theorem cut_declarations {stop : Cursor → Bool} (hstop : EndsList stop)
    (hsame : ∀ c c', c.Shortens cut c' → c'.ahead ≠ [] → stop c' = stop c)
    (hfollows : NestedFollows inner) (h : NestedCut cut inner) {c c' m : Cursor} {nodes : List Node}
    (hc : c.Shortens cut c')
    (hout : Walk.outcome (declarations stop (declaration inner)) c = (nodes, m))
    (herrors : m.errors = c.errors) :
    RunsOut c' (Walk.outcome (declarations stop (declaration inner)) c').2 ∨
      ∃ m', Walk.outcome (declarations stop (declaration inner)) c' = (nodes, m') ∧
        m.Shortens cut m' := by
  induction hn : c.ahead.length using Nat.strongRecOn generalizing c c' nodes with
  | ind n ih =>
    by_cases hahead : c'.ahead = []
    · rw [outcome_declarations_of_stop (hstop.at_end c' hahead)]
      exact .inl (.refl hahead)
    cases hat : stop c with
    | true =>
      rw [outcome_declarations_of_stop hat, Prod.mk.injEq] at hout
      obtain ⟨rfl, rfl⟩ := hout
      rw [outcome_declarations_of_stop ((hsame c c' hc hahead).trans hat)]
      exact .inr ⟨c', rfl, hc⟩
    | false =>
      have hat' := (hsame c c' hc hahead).trans hat
      rcases hfirst : outcome (attempt inner) c with ⟨error | node, middle⟩
      · rw [outcome_declarations_of_error hfollows hstop hat hfirst, Prod.mk.injEq] at hout
        obtain ⟨-, rfl⟩ := hout
        exact absurd herrors (errors_ne_of_outcome_error hfollows hfirst)
      rcases hrest : Walk.outcome (declarations stop (declaration inner)) middle with ⟨rest, last⟩
      rw [outcome_declarations_of_ok hfollows hstop hat hfirst, hrest, Prod.mk.injEq] at hout
      obtain ⟨rfl, rfl⟩ := hout
      have hmiddle : middle.errors = c.errors := by
        have hsteps := steps_declarations stop hfollows middle
        rw [hrest] at hsteps
        exact Steps.errors_eq (((strides_attempt hfollows).follows c).of_ok hfirst) hsteps herrors
      -- The cut falls into this declaration, or it comes later and the induction goes on.
      rcases (cutShort_attempt hfollows h).cutAt c c' hc node middle hfirst hmiddle with
        hends | ⟨middle', hfirst', hshort⟩
      · left
        rcases hfirst' : outcome (attempt inner) c' with ⟨error' | node', middle'⟩
        · rw [hfirst'] at hends
          have hrecover := hends.1.recover (hends.2 error' rfl)
          rw [outcome_declarations_of_error hfollows hstop hat' hfirst',
            outcome_declarations_of_stop (hstop.at_end _ hrecover.ahead_eq)]
          exact hrecover
        · rw [hfirst'] at hends
          rw [outcome_declarations_of_ok hfollows hstop hat' hfirst',
            outcome_declarations_of_stop (hstop.at_end _ hends.1.ahead_eq)]
          exact hends.1
      · have hshorter : middle.ahead.length < n :=
          hn ▸ (strides_attempt hfollows).length_lt c _ middle hfirst
        rw [outcome_declarations_of_ok hfollows hstop hat' hfirst']
        rcases ih middle.ahead.length hshorter hshort hrest (herrors.trans hmiddle.symm) rfl with
          hout' | ⟨last', hrest', hlast⟩
        · refine .inl (hout'.of_errors_eq ?_)
          rw [hshort.errors_eq, hmiddle, hc.errors_eq]
        · rw [hrest']
          exact .inr ⟨last', rfl, hlast⟩

/-- In front of a token that was not cut off, neither cursor is at the end. -/
theorem isAtEnd_eq_of_shortens {c c' : Cursor} (hc : c.Shortens cut c') (hahead : c'.ahead ≠ []) :
    c'.isAtEnd = c.isAtEnd := by
  obtain ⟨token, rest, hc'⟩ := List.exists_cons_of_ne_nil hahead
  simp [isAtEnd, hc', (hc.pass hc').1]

/-- Blocks are cut short: one that is not closed in the shorter text has run out. -/
theorem cutShort_braced (hfollows : NestedFollows inner) (h : NestedCut cut inner) :
    CutShort cut (braced (declaration inner)) := by
  refine .of_ahead (strides_braced (steps_declaration hfollows)).follows
    fun c c' hc hahead node m hout herrors => ?_
  obtain ⟨token, rest, hc'⟩ := List.exists_cons_of_ne_nil hahead
  obtain ⟨hnext, hpass⟩ := hc.pass hc'
  by_cases hmark : token.kind = .openBrace
  · rcases hlist : Walk.outcome (declarations blockEnd (declaration inner))
      (c.behind [token] (rest ++ cut)) with ⟨nodes, middle⟩
    rw [outcome_braced_of_ahead hnext hmark, hlist] at hout
    rw [outcome_braced_of_ahead hc' hmark]
    have hclosing (nodes : List Node) : CutShort cut (do
        let _ ← expect .closeBrace .unclosedBlock
        return Node.block nodes (some token.line)) :=
      (cutShort_expect _ _).bind fun _ => cutShort_pure _
    have hmiddle : middle.errors = c.errors := by
      obtain ⟨closing, last, hclosing, hend⟩ := outcome_bind_eq_ok.mp hout
      obtain ⟨_, -, hlast⟩ := exists_terminal_of_outcome_expect hclosing
      rw [outcome_pure, Prod.mk.injEq] at hend
      rw [← herrors, ← hend.2, hlast.errors_eq]
    have hsame (c c' : Cursor) (hc : c.Shortens cut c') (hahead : c'.ahead ≠ []) :
        blockEnd c' = blockEnd c := by
      rw [blockEnd, blockEnd, isAtEnd_eq_of_shortens hc hahead, hc.isAt_eq hahead]
    rcases cut_declarations endsList_blockEnd hsame hfollows h hpass hlist hmiddle with
      hruns | ⟨middle', hlist', hshort⟩
    · left
      have hends := (hclosing (Walk.outcome (declarations blockEnd (declaration inner))
        (c'.behind [token] rest)).1).follows.endsEarly hruns.ahead_eq
      have hstart : RunsOut c' _ := hruns.of_errors_eq rfl
      exact ⟨hstart.trans hends.1, hends.2⟩
    · rw [hlist']
      refine ((hclosing nodes).cutAt middle middle' hshort node m hout
        (herrors.trans hmiddle.symm)).imp_left fun hends => hends.of_errors_eq ?_
      rw [hshort.errors_eq, hmiddle, hc.errors_eq]
  · have hat : c.isAt .openBrace = false := by simp [isAt_of_ahead _ hnext, hmark]
    simp [outcome_braced_of_not_isAt hat] at hout

end Declarations

/-- The parsers of every level are cut short, by induction on the levels that are left. -/
theorem nestedCut (cut : List Token) (levels : Nat) : NestedCut cut (nested levels) := by
  induction levels with
  | zero => exact ⟨cutShort_fail _, cutShort_fail _, cutShort_fail _⟩
  | succ levels ih =>
    have hfollows := nestedFollows levels
    exact ⟨cutShort_expression hfollows.group ih.group, cutShort_statement hfollows ih,
      cutShort_braced hfollows ih⟩

end Grammar

namespace Program

open Cursor Grammar

/-- Every error in the beginning of a text that is read without an error is about the end. -/
theorem atEnd_of_mem_errors {file : Option String} {front cut : List Token} {endLine endLine' : Nat}
    (h : (ofTokens file ⟨front ++ cut, endLine⟩).errors = []) {error : SyntaxError}
    (herror : error ∈ (ofTokens file ⟨front, endLine'⟩).errors) : error.atEnd = true := by
  let c := start file ⟨front ++ cut, endLine⟩
  let c' := start file ⟨front, endLine'⟩
  have hc : c.Shortens cut c' := ⟨rfl, rfl, rfl, rfl⟩
  rw [errors_ofTokens, Array.toList_eq_nil_iff] at h
  rw [errors_ofTokens] at herror
  rcases cut_declarations endsList_isAtEnd (fun _ _ => isAtEnd_eq_of_shortens)
    (nestedFollows maxNesting) (nestedCut cut maxNesting) hc Prod.mk.eta.symm h with
    hruns | ⟨m', hout, hshort⟩
  · obtain ⟨late, hlate, hends⟩ := hruns.errors
    refine hends error ?_
    rwa [show (Walk.outcome program c').2.errors.toList = [] ++ late from hlate] at herror
  · have hnone : m'.errors = #[] := hshort.errors_eq.trans h
    rw [show Walk.outcome program c' = _ from hout, hnone] at herror
    simp at herror

end Program

end ScriptKit
