import ScriptKit.Proofs.Route

/-!
# Progress

What the steps of a cursor add up to: some tokens ahead are passed, in order, and some errors are
recorded behind those already there. Rules that succeed pass at least one token, and a declaration
passes one in any case, because recovery does.

The loops of the grammar count rounds in a list of tokens. As each round passes a token, the count
never runs out, and the file ends with the equations of the two loops without it.
-/

set_option autoImplicit false

namespace ScriptKit

open Relation (ReflTransGen)

namespace Cursor

/-- The second cursor is the first one after the tokens were passed and the errors recorded. -/
structure Moves (c : Cursor) (tokens : List Token) (found : List SyntaxError) (c' : Cursor) :
    Prop where
  file : c'.file = c.file
  endLine : c'.endLine = c.endLine
  passed : c'.passed = tokens.reverse ++ c.passed
  ahead : c.ahead = tokens ++ c'.ahead
  errors : c'.errors.toList = c.errors.toList ++ found

/-- A cursor that stays has passed nothing and recorded nothing. -/
theorem Moves.refl (c : Cursor) : c.Moves [] [] c := ⟨rfl, rfl, rfl, rfl, by simp⟩

/-- Two moves in a row are one, with what each has passed and recorded. -/
theorem Moves.trans {c m c' : Cursor} {first second : List Token} {found later : List SyntaxError}
    (h : c.Moves first found m) (h' : m.Moves second later c') :
    c.Moves (first ++ second) (found ++ later) c' where
  file := h'.file.trans h.file
  endLine := h'.endLine.trans h.endLine
  passed := by simp [h'.passed, h.passed]
  ahead := by simp [h.ahead, h'.ahead]
  errors := by simp [h.errors, h'.errors]

/-- The position grows by the number of passed tokens. -/
theorem Moves.position_eq {c c' : Cursor} {tokens : List Token} {found : List SyntaxError}
    (h : c.Moves tokens found c') : c'.position = c.position + tokens.length := by
  rw [position, position, h.passed, List.length_append, List.length_reverse, Nat.add_comm]

/-- A move that records nothing is determined by the tokens passed. -/
theorem Moves.eq_behind {c c' : Cursor} {tokens : List Token} (h : c.Moves tokens [] c') :
    c' = c.behind tokens c'.ahead := by
  have herrors : c'.errors = c.errors := by
    have hlist := h.errors
    rw [List.append_nil] at hlist
    exact Array.toList_inj.mp hlist
  obtain ⟨file, passed, ahead, endLine, errors⟩ := c'
  have hfile := h.file
  have hend := h.endLine
  have hpassed := h.passed
  simp only at hfile hend hpassed herrors
  subst hfile hend hpassed herrors
  rfl

/-- Passing tokens that are ahead is a move. -/
theorem moves_behind {c : Cursor} {tokens rest : List Token} (h : c.ahead = tokens ++ rest) :
    c.Moves tokens [] (c.behind tokens rest) :=
  ⟨rfl, rfl, rfl, h, by simp⟩

/-- Passing the token that is ahead is a move. -/
theorem moves_pass {c : Cursor} {token : Token} {rest : List Token} (h : c.ahead = token :: rest) :
    c.Moves [token] [] (c.behind [token] rest) :=
  moves_behind h

/-- The way to the next statement passes tokens in order. -/
theorem exists_passStatement (passed ahead : List Token) :
    ∃ skipped rest, ahead = skipped ++ rest ∧
      passStatement passed ahead = (skipped.reverse ++ passed, rest) := by
  induction ahead generalizing passed with
  | nil => exact ⟨[], [], rfl, rfl⟩
  | cons token rest ih =>
    rw [passStatement]
    split_ifs
    · exact ⟨[], token :: rest, rfl, rfl⟩
    · obtain ⟨skipped, after, rfl, hpass⟩ := ih (token :: passed)
      exact ⟨token :: skipped, after, rfl, by rw [hpass]; simp⟩

/-- Recovery records its error and moves; unless the cursor is at the end, the next token is
among those passed. -/
theorem exists_moves_recover (c : Cursor) (error : SyntaxError) :
    ∃ tokens, c.Moves tokens [error] (c.recover error) ∧ (c.ahead ≠ [] → tokens ≠ []) := by
  cases hahead : c.ahead with
  | nil =>
    refine ⟨[], ⟨?_, ?_, ?_, ?_, ?_⟩, by simp⟩ <;>
      simp [recover, resume, advance, hahead, passStatement]
  | cons token rest =>
    obtain ⟨skipped, after, rfl, hpass⟩ := exists_passStatement (token :: c.passed) rest
    refine ⟨token :: skipped, ⟨?_, ?_, ?_, ?_, ?_⟩, by simp⟩ <;>
      simp [recover, resume, advance, hahead, hpass]

/-- A way through an expression passes tokens of expressions and records nothing. -/
theorem Glides.exists_moves {c c' : Cursor} (h : Glides c c') :
    ∃ tokens, c.Moves tokens [] c' ∧ ∀ token ∈ tokens, token.kind.inExpression = true := by
  induction h with
  | refl => exact ⟨[], Moves.refl c, by simp⟩
  | tail _ hglide ih =>
    obtain ⟨tokens, hmoves, hkinds⟩ := ih
    cases hglide with
    | pass hahead hkind =>
      rename_i m token rest
      have hpass := moves_pass hahead
      rw [← advance_of_ahead hahead] at hpass
      refine ⟨tokens ++ [token], hmoves.trans hpass, ?_⟩
      intro other hother
      rw [List.mem_append, List.mem_singleton] at hother
      rcases hother with hother | rfl
      · exact hkinds other hother
      · exact hkind

/-- Every way is a move. -/
theorem Steps.exists_moves {c c' : Cursor} (h : Steps c c') :
    ∃ tokens found, c.Moves tokens found c' := by
  induction h with
  | refl => exact ⟨[], [], Moves.refl c⟩
  | @tail m _ _ hstep ih =>
    obtain ⟨tokens, found, hmoves⟩ := ih
    cases hstep with
    | pass =>
      cases hahead : m.ahead with
      | nil =>
        rw [advance_of_ahead_nil hahead]
        exact ⟨tokens, found, hmoves⟩
      | cons token rest =>
        rw [advance_of_ahead hahead]
        exact ⟨_, _, hmoves.trans (moves_pass hahead)⟩
    | recover complaint hgives =>
      obtain ⟨glided, hglided, -⟩ := Glides.exists_moves hgives
      obtain ⟨skipped, hskipped, -⟩ := exists_moves_recover _ _
      exact ⟨_, _, hmoves.trans (hglided.trans hskipped)⟩

/-- A move past tokens that records nothing leaves the errors alone. -/
theorem Moves.errors_eq {c c' : Cursor} {tokens : List Token} (h : c.Moves tokens [] c') :
    c'.errors = c.errors := by
  rw [h.eq_behind, errors_behind]

/-- Nothing was recorded on the way to a place before the end of a way on which nothing was
recorded. -/
theorem Steps.errors_eq {c m c' : Cursor} (h : Steps c m) (h' : Steps m c')
    (herrors : c'.errors = c.errors) : m.errors = c.errors := by
  obtain ⟨first, found, hfirst⟩ := Steps.exists_moves h
  obtain ⟨second, later, hsecond⟩ := Steps.exists_moves h'
  have hall := (hfirst.trans hsecond).errors
  rw [herrors, List.self_eq_append_right, List.append_eq_nil_iff] at hall
  have hnone := hfirst.errors
  rw [hall.1, List.append_nil] at hnone
  exact Array.toList_inj.mp hnone

/-- On its way a cursor never has more tokens ahead than before. -/
theorem Steps.length_le {c c' : Cursor} (h : Steps c c') : c'.ahead.length ≤ c.ahead.length := by
  obtain ⟨tokens, found, hmoves⟩ := h.exists_moves
  rw [hmoves.ahead, List.length_append]
  omega

end Cursor

namespace Parse

open Cursor

variable {α β : Type}

/-- The action follows steps, and if it succeeds then it has passed a token. -/
structure Strides (action : Parse α) : Prop where
  follows : Follows Step action
  length_lt : ∀ c a c', outcome action c = (.ok a, c') → c'.ahead.length < c.ahead.length

/-- An expectation that is met has passed a token. -/
theorem strides_expect (kind : Token.Kind) (complaint : Complaint) :
    Strides (expect kind complaint) where
  follows := follows_expect kind complaint
  length_lt := by
    intro c token c' h
    obtain ⟨-, hahead, -⟩ := ahead_of_outcome_expect h
    rw [hahead, List.length_cons]
    omega

/-- What always fails never succeeds without passing a token. -/
theorem strides_fail (complaint : Complaint) : Strides (fail complaint : Parse α) where
  follows := followsAt_fail complaint
  length_lt := by
    intro c a c' h
    simp at h

/-- What begins with a stride is a stride. -/
theorem Strides.bind {action : Parse α} {next : α → Parse β} (h : Strides action)
    (hnext : ∀ a, Follows Step (next a)) : Strides (action >>= next) where
  follows := h.follows.bind hnext
  length_lt := by
    intro c b c' hok
    obtain ⟨a, m, hfirst, hsecond⟩ := outcome_bind_eq_ok.mp hok
    have hlt := h.length_lt c a m hfirst
    have hle := Steps.length_le ((hnext a m).of_ok hsecond)
    omega

/-- A chain passes a token if its second action does. -/
theorem Follows.bind_strides {action : Parse α} {next : α → Parse β} (h : Follows Step action)
    (hnext : ∀ a, Strides (next a)) : Strides (action >>= next) where
  follows := h.bind fun a => (hnext a).follows
  length_lt := by
    intro c b c' hok
    obtain ⟨a, m, hfirst, hsecond⟩ := outcome_bind_eq_ok.mp hok
    have hle := Steps.length_le ((h c).of_ok hfirst)
    have hlt := (hnext a).length_lt m b c' hsecond
    omega

end Parse

namespace Grammar

open Cursor Parse

/-- What the parsers of the next level do to a cursor. -/
structure NestedFollows (inner : Nested) : Prop where
  group : Follows Glide inner.group
  body : Follows Step inner.body
  block : Strides inner.block

variable {inner : Nested}

/-- An expression and the semicolon behind it are a stride. -/
theorem strides_expression_end (h : NestedFollows inner) (complaint : Complaint)
    (node : Node → Node) :
    Strides (do
      let expression ← expression inner
      let _ ← expect .semicolon complaint
      return node expression) := by
  refine (follows_expression h.group).toStep.bind_strides fun expression => ?_
  exact (strides_expect _ _).bind fun _ => followsAt_pure _

/-- A statement that evaluates passes at least its semicolon. -/
theorem strides_expressionStatement (h : NestedFollows inner) :
    Strides (expressionStatement inner) := by
  refine Follows.bind_strides (fun c => followsAt_pure c c) fun c => ?_
  exact strides_expression_end h .unendedExpression fun node => .evaluate node (some c.line)

/-- A statement that prints passes at least its word. -/
theorem strides_printStatement (h : NestedFollows inner) : Strides (printStatement inner) := by
  refine (strides_expect _ _).bind fun word => ?_
  exact (strides_expression_end h .unendedPrint fun node => .print node (some word.line)).follows

/-- A conditional passes at least its word. -/
theorem strides_ifStatement (h : NestedFollows inner) : Strides (ifStatement inner) := by
  refine (strides_expect _ _).bind fun word => ?_
  refine (follows_expect _ _).bind fun _ => ?_
  refine (follows_expression h.group).toStep.bind fun condition => ?_
  refine (follows_expect _ _).bind fun _ => ?_
  refine h.body.bind fun thenBranch c => ?_
  refine followsAt_get_bind ?_
  cases c.isAt .elseWord with
  | true =>
    refine followsAt_advance_bind (Step.pass c) ?_
    exact (h.body _).bind fun _ _ _ => followsAt_pure _ _
  | false => exact followsAt_pure _ c

/-- A loop passes at least its word. -/
theorem strides_whileStatement (h : NestedFollows inner) : Strides (whileStatement inner) := by
  refine (strides_expect _ _).bind fun word => ?_
  refine (follows_expect _ _).bind fun _ => ?_
  refine (follows_expression h.group).toStep.bind fun condition => ?_
  refine (follows_expect _ _).bind fun _ => ?_
  exact h.body.bind fun _ => followsAt_pure _

/-- A statement strides: whichever rule the next token picks does so. -/
theorem strides_statement (h : NestedFollows inner) : Strides (statement inner) := by
  have hcases (c : Cursor) : ∃ rule : Parse Node,
      Strides rule ∧ outcome (statement inner) c = outcome rule c := by
    rw [outcome_statement]
    split_ifs
    · exact ⟨_, strides_printStatement h, rfl⟩
    · exact ⟨_, strides_ifStatement h, rfl⟩
    · exact ⟨_, strides_whileStatement h, rfl⟩
    · exact ⟨_, h.block, rfl⟩
    · exact ⟨_, strides_expressionStatement h, rfl⟩
  constructor
  · intro c
    obtain ⟨rule, hrule, heq⟩ := hcases c
    rw [FollowsAt, heq]
    exact hrule.follows c
  · intro c node c' hok
    obtain ⟨rule, hrule, heq⟩ := hcases c
    exact hrule.length_lt c node c' (heq ▸ hok)

/-- A declaration of a variable passes at least its word. -/
theorem strides_varDeclaration (h : NestedFollows inner) : Strides (varDeclaration inner) := by
  refine (strides_expect _ _).bind fun word => ?_
  refine (follows_expect _ _).bind fun name c => ?_
  refine followsAt_get_bind ?_
  cases c.isAt .assign with
  | true =>
    refine followsAt_advance_bind (Step.pass c) ?_
    exact (strides_expression_end h .unendedDeclaration fun initial =>
      .define name.text initial (some word.line)).follows _
  | false => exact (follows_expect _ _ c).bind fun _ _ _ => followsAt_pure _ _

/-- An attempt that succeeds has passed a token, whichever rule it took. -/
theorem strides_attempt (h : NestedFollows inner) : Strides (attempt inner) := by
  constructor
  · intro c
    rw [FollowsAt, outcome_attempt]
    split_ifs
    · exact (strides_varDeclaration h).follows c
    · exact (strides_statement h).follows c
  · intro c node c' hok
    rw [outcome_attempt] at hok
    split_ifs at hok
    · exact (strides_varDeclaration h).length_lt c node c' hok
    · exact (strides_statement h).length_lt c node c' hok

/-- A declaration takes steps; the last one recovers if the attempt fails. -/
theorem steps_declaration (h : NestedFollows inner) (c : Cursor) :
    Steps c (Walk.outcome (declaration inner) c).2 := by
  have hattempt := (strides_attempt h).follows c
  rcases hout : outcome (attempt inner) c with ⟨_ | node, m⟩
  · obtain ⟨raised, complaint, hraised, hgives, rfl⟩ := hattempt.of_error hout
    rw [outcome_declaration_of_error hout]
    exact hraised.tail (Step.recover complaint hgives)
  · rw [outcome_declaration_of_ok hout]
    exact hattempt.of_ok hout

/-- A declaration passes a token wherever there is one. -/
theorem length_declaration_lt (h : NestedFollows inner) {c : Cursor} (hahead : c.ahead ≠ []) :
    (Walk.outcome (declaration inner) c).2.ahead.length < c.ahead.length := by
  rcases hout : outcome (attempt inner) c with ⟨_ | node, m⟩
  · rename_i error
    have hle := Steps.length_le ((strides_attempt h).follows.steps hout)
    obtain ⟨skipped, hskipped, hsome⟩ := exists_moves_recover m error
    have hlength := congrArg List.length hskipped.ahead
    rw [List.length_append] at hlength
    rw [outcome_declaration_of_error hout]
    by_cases hend : m.ahead = []
    · have hpos := List.length_pos_iff.mpr hahead
      rw [hend, List.length_nil] at hlength
      simp only
      omega
    · have hpos := List.length_pos_iff.mpr (hsome hend)
      simp only
      omega
  · rw [outcome_declaration_of_ok hout]
    exact (strides_attempt h).length_lt c node m hout

/-- A list of declarations takes steps, if each declaration does. -/
theorem steps_declarationsFrom {stop : Cursor → Bool} {declaration : Walk Node}
    (h : ∀ c, Steps c (Walk.outcome declaration c).2) (rounds : List Token) (done : List Node)
    (c : Cursor) : Steps c (Walk.outcome (declarationsFrom stop declaration rounds done) c).2 := by
  induction rounds generalizing done c with
  | nil => exact .refl
  | cons round rounds ih =>
    rw [outcome_declarationsFrom_cons]
    split_ifs
    · exact .refl
    · exact (h c).trans (ih _ _)

/-- Declarations up to their end take steps. -/
theorem steps_declarations (stop : Cursor → Bool) (h : NestedFollows inner) (c : Cursor) :
    Steps c (Walk.outcome (declarations stop (declaration inner)) c).2 :=
  steps_declarationsFrom (steps_declaration h) c.ahead [] c

/-- A block passes at least its braces. -/
theorem strides_braced {declaration : Walk Node}
    (h : ∀ c, Steps c (Walk.outcome declaration c).2) : Strides (braced declaration) := by
  refine (strides_expect _ _).bind fun mark c => ?_
  refine FollowsAt.bind ?_ fun nodes m _ => ?_
  · exact steps_declarationsFrom h c.ahead [] c
  · exact (follows_expect _ _ m).bind fun _ _ _ => followsAt_pure _ _

/-- The parsers of every level follow steps, by induction on the levels that are left. -/
theorem nestedFollows (levels : Nat) : NestedFollows (nested levels) := by
  induction levels with
  | zero => exact ⟨followsAt_fail _, followsAt_fail _, strides_fail _⟩
  | succ levels ih =>
    exact ⟨follows_expression ih.group, (strides_statement ih).follows,
      strides_braced (steps_declaration ih)⟩

/-- Go on with a row of operators, with a round for each token ahead. -/
def chainRest (operator? : Token.Kind → Option Operator) (operand : Parse Node) (left : Node) :
    Parse Node := do
  chainFrom operator? operand (← get).ahead left

/-- Operands with operators between them are a first operand and the rest of the row. -/
theorem chain_eq_chainRest (operator? : Token.Kind → Option Operator) (operand : Parse Node) :
    chain operator? operand = operand >>= chainRest operator? operand := rfl

/-- More rounds than tokens ahead do not change a row of operators. -/
theorem outcome_chainFrom_congr {operator? : Token.Kind → Option Operator} {operand : Parse Node}
    (h : Follows Glide operand) {rounds rounds' : List Token} (left : Node) {c : Cursor}
    (hrounds : c.ahead.length ≤ rounds.length) (hrounds' : c.ahead.length ≤ rounds'.length) :
    outcome (chainFrom operator? operand rounds left) c =
      outcome (chainFrom operator? operand rounds' left) c := by
  induction rounds generalizing rounds' left c with
  | nil =>
    have hnil : c.ahead = [] := List.eq_nil_of_length_eq_zero (Nat.le_zero.mp hrounds)
    rw [outcome_chainFrom_of_none [] left (by rw [hnil]; rfl),
      outcome_chainFrom_of_none rounds' left (by rw [hnil]; rfl)]
  | cons round rounds ih =>
    cases hsign : c.ahead.head?.bind (operator? ·.kind) with
    | none =>
      rw [outcome_chainFrom_of_none _ left hsign, outcome_chainFrom_of_none _ left hsign]
    | some op =>
      obtain ⟨token, hhead, hop⟩ := Option.bind_eq_some_iff.mp hsign
      obtain ⟨rest, hahead⟩ := List.head?_eq_some_iff.mp hhead
      obtain ⟨round', rounds', rfl⟩ : ∃ round' tail, rounds' = round' :: tail := by
        apply List.exists_cons_of_length_pos
        rw [hahead, List.length_cons] at hrounds'
        omega
      rw [outcome_chainFrom_of_some round rounds left hahead hop,
        outcome_chainFrom_of_some round' rounds' left hahead hop]
      rcases hright : outcome operand (c.behind [token] rest) with ⟨_ | right, m⟩
      · rw [outcome_bind_of_error hright, outcome_bind_of_error hright]
      · have hle := Steps.length_le (Glides.steps ((h _).of_ok hright))
        rw [ahead_behind] at hle
        rw [hahead, List.length_cons] at hrounds hrounds'
        rw [List.length_cons] at hrounds hrounds'
        rw [outcome_bind_of_ok hright, outcome_bind_of_ok hright]
        exact ih _ (by omega) (by omega)

/-- The rest of a row is empty where no operator of the row follows. -/
theorem outcome_chainRest_of_none {operator? : Token.Kind → Option Operator}
    {operand : Parse Node} {c : Cursor} (left : Node)
    (h : c.ahead.head?.bind (operator? ·.kind) = none) :
    outcome (chainRest operator? operand left) c = (.ok left, c) := by
  rw [chainRest, outcome_get_bind]
  exact outcome_chainFrom_of_none _ left h

/-- The rest of a row begins with an operator and an operand where an operator of the row
follows. -/
theorem outcome_chainRest_of_some {operator? : Token.Kind → Option Operator}
    {operand : Parse Node} (h : Follows Glide operand) {c : Cursor} {token : Token}
    {rest : List Token} {op : Operator} (left : Node) (hahead : c.ahead = token :: rest)
    (hop : operator? token.kind = some op) :
    outcome (chainRest operator? operand left) c =
      outcome (do
        let right ← operand
        chainRest operator? operand (.binary op left right (some token.line)))
        (c.behind [token] rest) := by
  rw [chainRest, outcome_get_bind, hahead, outcome_chainFrom_of_some token rest left hahead hop]
  rcases hright : outcome operand (c.behind [token] rest) with ⟨_ | right, m⟩
  · rw [outcome_bind_of_error hright, outcome_bind_of_error hright]
  · have hle := Steps.length_le (Glides.steps ((h _).of_ok hright))
    rw [ahead_behind] at hle
    rw [outcome_bind_of_ok hright, outcome_bind_of_ok hright, chainRest, outcome_get_bind]
    exact outcome_chainFrom_congr h _ hle le_rfl

/-- The condition ends a list of declarations: it holds at the end of the text and at no token but
a closing brace. -/
structure EndsList (stop : Cursor → Bool) : Prop where
  at_end : ∀ c, c.ahead = [] → stop c = true
  goes_on : ∀ c token rest, c.ahead = token :: rest → token.kind ≠ .closeBrace → stop c = false

/-- The end of the text ends the list of all declarations. -/
theorem endsList_isAtEnd : EndsList Cursor.isAtEnd where
  at_end c h := by simp [isAtEnd, h]
  goes_on c token rest h _ := by simp [isAtEnd, h]

/-- A closing brace and the end of the text end the declarations of a block. -/
theorem endsList_blockEnd : EndsList blockEnd where
  at_end c h := by simp [isAtEnd, h]
  goes_on c token rest h hkind := by simp [isAtEnd, h, isAt_of_ahead _ h, hkind]

section Declarations

variable {stop : Cursor → Bool} {declaration : Walk Node}

/-- More rounds than tokens ahead do not change a list of declarations, and the declarations
already there are only put in front. -/
theorem exists_outcome_declarationsFrom (hend : EndsList stop)
    (hlt : ∀ c, c.ahead ≠ [] → (Walk.outcome declaration c).2.ahead.length < c.ahead.length)
    {rounds rounds' : List Token} (done done' : List Node) {c : Cursor}
    (hrounds : c.ahead.length ≤ rounds.length) (hrounds' : c.ahead.length ≤ rounds'.length) :
    ∃ nodes c', Walk.outcome (declarationsFrom stop declaration rounds done) c =
        (done.reverse ++ nodes, c') ∧
      Walk.outcome (declarationsFrom stop declaration rounds' done') c =
        (done'.reverse ++ nodes, c') := by
  have hstopped (rounds : List Token) (done : List Node) {c : Cursor} (hstop : stop c = true) :
      Walk.outcome (declarationsFrom stop declaration rounds done) c = (done.reverse, c) := by
    cases rounds with
    | nil => rfl
    | cons round rounds => rw [outcome_declarationsFrom_cons, if_pos hstop]
  -- The rounds only count; the tokens ahead shrink at least as fast as either supply of them.
  induction rounds generalizing rounds' done done' c with
  | nil =>
    have hnil : c.ahead = [] := List.eq_nil_of_length_eq_zero (Nat.le_zero.mp hrounds)
    refine ⟨[], c, ?_, ?_⟩
    · rw [hstopped [] done (hend.at_end c hnil), List.append_nil]
    · rw [hstopped rounds' done' (hend.at_end c hnil), List.append_nil]
  | cons round rounds ih =>
    cases hstop : stop c with
    | true =>
      refine ⟨[], c, ?_, ?_⟩
      · rw [hstopped (round :: rounds) done hstop, List.append_nil]
      · rw [hstopped rounds' done' hstop, List.append_nil]
    | false =>
      have hahead : c.ahead ≠ [] := fun hnil => by simp [hend.at_end c hnil] at hstop
      obtain ⟨round', rounds', rfl⟩ : ∃ round' tail, rounds' = round' :: tail := by
        apply List.exists_cons_of_length_pos
        have hpos := List.length_pos_iff.mpr hahead
        omega
      have hstep := hlt c hahead
      rw [List.length_cons] at hrounds hrounds'
      have hrest : (Walk.outcome declaration c).2.ahead.length ≤ rounds.length := by omega
      have hrest' : (Walk.outcome declaration c).2.ahead.length ≤ rounds'.length := by omega
      obtain ⟨nodes, c', hfirst, hsecond⟩ := ih ((Walk.outcome declaration c).1 :: done)
        ((Walk.outcome declaration c).1 :: done') hrest hrest'
      refine ⟨(Walk.outcome declaration c).1 :: nodes, c', ?_, ?_⟩
      · rw [outcome_declarationsFrom_cons, hstop, if_neg (by simp), hfirst]
        simp
      · rw [outcome_declarationsFrom_cons, hstop, if_neg (by simp), hsecond]
        simp

/-- Where the list ends at once, nothing is read. -/
theorem outcome_declarations_of_stop {c : Cursor} (hstop : stop c = true) :
    Walk.outcome (declarations stop declaration) c = ([], c) := by
  have hdef : Walk.outcome (declarations stop declaration) c =
      Walk.outcome (declarationsFrom stop declaration c.ahead []) c := rfl
  rw [hdef]
  cases c.ahead with
  | nil => rfl
  | cons token rest => rw [outcome_declarationsFrom_cons, if_pos hstop, List.reverse_nil]

/-- Else the list is its first declaration and the list behind it. The rounds that were set aside at
the start suffice for that list too. -/
theorem outcome_declarations_of_not_stop (hend : EndsList stop)
    (hlt : ∀ c, c.ahead ≠ [] → (Walk.outcome declaration c).2.ahead.length < c.ahead.length)
    {c m : Cursor} {node : Node} (hstop : stop c = false)
    (hfirst : Walk.outcome declaration c = (node, m)) :
    Walk.outcome (declarations stop declaration) c =
      (node :: (Walk.outcome (declarations stop declaration) m).1,
        (Walk.outcome (declarations stop declaration) m).2) := by
  have hdef (c : Cursor) : Walk.outcome (declarations stop declaration) c =
      Walk.outcome (declarationsFrom stop declaration c.ahead []) c := rfl
  obtain ⟨token, rest, hahead⟩ : ∃ token rest, c.ahead = token :: rest := by
    apply List.exists_cons_of_ne_nil
    intro hnil
    simp [hend.at_end c hnil] at hstop
  have hstep : m.ahead.length ≤ rest.length := by
    have hlength := hlt c (by simp [hahead])
    rw [hfirst, hahead, List.length_cons] at hlength
    exact Nat.le_of_lt_succ hlength
  obtain ⟨nodes, c', hrest, hrest'⟩ :=
    exists_outcome_declarationsFrom hend hlt [node] [] hstep le_rfl
  rw [hdef c, hdef m, hahead, outcome_declarationsFrom_cons, hstop, if_neg (by simp), hfirst,
    hrest, hrest']
  simp

/-- A declaration that is read without an error is the first of the list. -/
theorem outcome_declarations_of_ok {inner : Nested} (h : NestedFollows inner)
    (hend : EndsList stop) {c m : Cursor} {node : Node} (hstop : stop c = false)
    (hout : outcome (attempt inner) c = (.ok node, m)) :
    Walk.outcome (declarations stop (Grammar.declaration inner)) c =
      (node :: (Walk.outcome (declarations stop (Grammar.declaration inner)) m).1,
        (Walk.outcome (declarations stop (Grammar.declaration inner)) m).2) :=
  outcome_declarations_of_not_stop hend (fun _ => length_declaration_lt h) hstop
    (outcome_declaration_of_ok hout)

/-- Where an attempt fails, a marker is the next of the list, which goes on after recovery. -/
theorem outcome_declarations_of_error {inner : Nested} (h : NestedFollows inner)
    (hend : EndsList stop) {c m : Cursor} {error : SyntaxError} (hstop : stop c = false)
    (hout : outcome (attempt inner) c = (.error error, m)) :
    Walk.outcome (declarations stop (Grammar.declaration inner)) c =
      (error.marker m.file ::
          (Walk.outcome (declarations stop (Grammar.declaration inner)) (m.recover error)).1,
        (Walk.outcome (declarations stop (Grammar.declaration inner)) (m.recover error)).2) :=
  outcome_declarations_of_not_stop hend (fun _ => length_declaration_lt h) hstop
    (outcome_declaration_of_error hout)

end Declarations

end Grammar

end ScriptKit
