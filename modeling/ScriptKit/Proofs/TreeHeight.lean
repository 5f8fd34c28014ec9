import ScriptKit.Proofs.Contracts
import ScriptKit.Proofs.Reading

/-!
# The height of trees

Groups, assigned values, blocks and branches stand in each other only so deep, and each of them adds
only so much to the height of a tree, but for one thing: a row of operators makes a tree that is as
high as the row is long. If no row that is read has more than `k` operators, then the height of a
statement is bounded, and neither evaluation nor a listing needs more levels than that.

Which rows are read is a matter of the calls that the rules make: `Calls` is one call, with the
levels left and the place where it is made, and `Passes` says how many operators a row has passed.
-/

set_option autoImplicit false

namespace ScriptKit

open Relation (ReflTransGen)

namespace Node

mutual

/-- The number of nodes on the longest path from the root of a tree to a leaf. -/
@[simp] def height : Node → Nat
  | literal .. | reference .. | declare .. | skipped .. | unknown .. => 1
  | binary _ lhs rhs _ => max lhs.height rhs.height + 1
  | assign _ value _ => value.height + 1
  | evaluate expression _ => expression.height + 1
  | define _ initial _ => initial.height + 1
  | print expression _ => expression.height + 1
  | ifThen condition thenBranch _ => max condition.height thenBranch.height + 1
  | ifElse condition thenBranch elseBranch _ =>
    max condition.height (max thenBranch.height elseBranch.height) + 1
  | loop condition body _ => max condition.height body.height + 1
  | block statements _ => heightOf statements + 1

/-- The height of the highest of several trees. -/
@[simp] def heightOf : List Node → Nat
  | [] => 0
  | first :: rest => max first.height (heightOf rest)

end

/-- Trees are no higher than a bound if each of them is not. -/
theorem heightOf_le_iff {nodes : List Node} {n : Nat} :
    heightOf nodes ≤ n ↔ ∀ node ∈ nodes, node.height ≤ n := by
  induction nodes with
  | nil => simp
  | cons first rest ih => simp [ih]

/-- Every tree has a root. -/
theorem height_pos (node : Node) : 0 < node.height := by
  cases node <;> simp

end Node

namespace Grammar

open Cursor Parse

/-! ## Calls of the rules -/

/-- The rules, and the loop over declarations. `operand row` is as in `Symbol`. -/
inductive Rule where
  | operand (row : Nat)
  | expression
  | statement
  | declaration
  | declarations (stop : Cursor → Bool)

/-- A rule at work: where it was called and how many levels were left. -/
structure Frame where
  rule : Rule
  levels : Nat
  cursor : Cursor

/-- The call of a row of operators at the first cursor has passed that many operators, each with the
operand to its right, and has come to the second cursor. -/
inductive Passes (row levels : Nat) (c : Cursor) : Nat → Cursor → Prop where
  | first {node : Node} {m : Cursor}
      (hout : outcome (operandAt (nested levels) row) c = (.ok node, m)) : Passes row levels c 0 m
  | next {n : Nat} {m m' m'' : Cursor} {sign : Token} {op : Operator} {node : Node}
      (h : Passes row levels c n m) (hsign : operatorAt? row sign.kind = some op)
      (hpass : m.Moves [sign] [] m')
      (hout : outcome (operandAt (nested levels) row) m' = (.ok node, m'')) :
      Passes row levels c (n + 1) m''

/-- The first rule at work calls the second one. A loop over declarations calls one after the
other. -/
inductive Calls : Frame → Frame → Prop where
  | declaration {stop : Cursor → Bool} {levels : Nat} {c : Cursor} (hgoes : stop c = false) :
      Calls ⟨.declarations stop, levels, c⟩ ⟨.declaration, levels, c⟩
  | later {stop : Cursor → Bool} {levels : Nat} {c m : Cursor} {node : Node}
      (hgoes : stop c = false)
      (hout : Walk.outcome (Grammar.declaration (nested levels)) c = (node, m)) :
      Calls ⟨.declarations stop, levels, c⟩ ⟨.declarations stop, levels, m⟩
  | initial {levels : Nat} {c m : Cursor} (word : Terminal .varWord) (name : Terminal .name)
      (mark : Terminal .assign) (hstart : c.Moves [word.val, name.val, mark.val] [] m) :
      Calls ⟨.declaration, levels, c⟩ ⟨.expression, levels, m⟩
  | statement {levels : Nat} {c : Cursor} (hvar : c.isAt .varWord = false) :
      Calls ⟨.declaration, levels, c⟩ ⟨.statement, levels, c⟩
  | printed {levels : Nat} {c m : Cursor} (word : Terminal .printWord)
      (hword : c.Moves [word.val] [] m) :
      Calls ⟨.statement, levels, c⟩ ⟨.expression, levels, m⟩
  | evaluated {levels : Nat} {c : Cursor} (hopens : opensStatement c = false) :
      Calls ⟨.statement, levels, c⟩ ⟨.expression, levels, c⟩
  | condition {levels : Nat} {c m : Cursor} {kind : Token.Kind}
      (hkind : kind = .ifWord ∨ kind = .whileWord) (word : Terminal kind)
      (opening : Terminal .openParen) (hstart : c.Moves [word.val, opening.val] [] m) :
      Calls ⟨.statement, levels, c⟩ ⟨.expression, levels, m⟩
  | body {levels : Nat} {c m₁ m₂ m₃ : Cursor} {kind : Token.Kind} {condition : Node}
      (hkind : kind = .ifWord ∨ kind = .whileWord) (word : Terminal kind)
      (opening : Terminal .openParen) (closing : Terminal .closeParen)
      (hstart : c.Moves [word.val, opening.val] [] m₁)
      (hcondition : outcome (Grammar.expression (nested (levels + 1))) m₁ = (.ok condition, m₂))
      (hclosing : m₂.Moves [closing.val] [] m₃) :
      Calls ⟨.statement, levels + 1, c⟩ ⟨.statement, levels, m₃⟩
  | elseBody {levels : Nat} {c m₁ m₂ m₃ m₄ m₅ : Cursor} {condition thenBranch : Node}
      (word : Terminal .ifWord) (opening : Terminal .openParen) (closing : Terminal .closeParen)
      (otherwise : Terminal .elseWord) (hstart : c.Moves [word.val, opening.val] [] m₁)
      (hcondition : outcome (Grammar.expression (nested (levels + 1))) m₁ = (.ok condition, m₂))
      (hclosing : m₂.Moves [closing.val] [] m₃)
      (hthen : outcome (nested (levels + 1)).body m₃ = (.ok thenBranch, m₄))
      (hmiddle : m₄.Moves [otherwise.val] [] m₅) :
      Calls ⟨.statement, levels + 1, c⟩ ⟨.statement, levels, m₅⟩
  | block {levels : Nat} {c m : Cursor} (opening : Terminal .openBrace)
      (hfirst : c.Moves [opening.val] [] m) :
      Calls ⟨.statement, levels + 1, c⟩ ⟨.declarations blockEnd, levels, m⟩
  | equality {levels : Nat} {c : Cursor} : Calls ⟨.expression, levels, c⟩ ⟨.operand 4, levels, c⟩
  | assigned {levels : Nat} {c m m' : Cursor} {target : Node} (mark : Terminal .assign)
      (htarget : outcome (operandAt (nested (levels + 1)) 4) c = (.ok target, m))
      (hmark : m.Moves [mark.val] [] m') :
      Calls ⟨.expression, levels + 1, c⟩ ⟨.expression, levels, m'⟩
  | firstOperand {row levels : Nat} {c : Cursor} :
      Calls ⟨.operand (row + 1), levels, c⟩ ⟨.operand row, levels, c⟩
  | nextOperand {row levels n : Nat} {c m m' : Cursor} {sign : Token} {op : Operator}
      (h : Passes row levels c n m) (hsign : operatorAt? row sign.kind = some op)
      (hpass : m.Moves [sign] [] m') :
      Calls ⟨.operand (row + 1), levels, c⟩ ⟨.operand row, levels, m'⟩
  | group {levels : Nat} {c m : Cursor} (opening : Terminal .openParen)
      (hfirst : c.Moves [opening.val] [] m) :
      Calls ⟨.operand 0, levels + 1, c⟩ ⟨.expression, levels, m⟩

/-- No row that is called, directly or through other calls, passes more than `k` operators. -/
def Frame.ChainsWithin (k : Nat) (frame : Frame) : Prop :=
  ∀ row levels c, ReflTransGen Calls frame ⟨.operand (row + 1), levels, c⟩ →
    ∀ n m, Passes row levels c n m → n ≤ k

/-- What bounds the rows of a rule at work bounds those of a rule that it calls. -/
theorem Frame.ChainsWithin.of_calls {k : Nat} {frame frame' : Frame} (h : frame.ChainsWithin k)
    (hcalls : Calls frame frame') : frame'.ChainsWithin k := by
  intro row levels c hreached
  exact h row levels c (.head hcalls hreached)

/-! ## The height of expressions -/

section Expressions

variable {k levels row : Nat} {c c' : Cursor} {node : Node}

/-- An operand leaves an end of what was ahead. -/
theorem suffix_of_outcome_operandAt
    (hout : outcome (operandAt (nested levels) row) c = (.ok node, c')) : c'.ahead <:+ c.ahead := by
  obtain ⟨d, -, -, hmoves⟩ :=
    derives_operandAt (nestedFollows levels).group (nestedDerives levels) row hout
  exact suffix_of_moves hmoves

/-- The rest of a row adds one to the height with each operator. -/
theorem height_chainRest {bound : Nat} {start : Cursor}
    (hoperand : ∀ {c c' : Cursor} {node : Node}, Frame.ChainsWithin k ⟨.operand row, levels, c⟩ →
      outcome (operandAt (nested levels) row) c = (.ok node, c') → node.height ≤ bound)
    (hstart : Frame.ChainsWithin k ⟨.operand (row + 1), levels, start⟩) {n : Nat} {left : Node}
    (hpasses : Passes row levels start n c) (hleft : left.height ≤ bound + n)
    (hout : outcome (chainRest (operatorAt? row) (operandAt (nested levels) row) left) c =
      (.ok node, c')) : node.height ≤ bound + k := by
  have hfollows := follows_operandAt (nestedFollows levels).group row
  induction hlength : c.ahead.length using Nat.strongRecOn generalizing c n left with
  | ind length ih =>
    cases hsign : c.ahead.head?.bind (operatorAt? row ·.kind) with
    | none =>
      rw [outcome_chainRest_of_none left hsign, Prod.mk.injEq, Except.ok.injEq] at hout
      obtain ⟨rfl, rfl⟩ := hout
      have hle := hstart row levels start .refl n c hpasses
      omega
    | some op =>
      obtain ⟨sign, hhead, hop⟩ := Option.bind_eq_some_iff.mp hsign
      obtain ⟨rest, hahead⟩ := List.head?_eq_some_iff.mp hhead
      rw [outcome_chainRest_of_some hfollows left hahead hop] at hout
      obtain ⟨right, m, hright, hout⟩ := outcome_bind_eq_ok.mp hout
      have hpass := moves_pass hahead
      have hrightHeight := hoperand (hstart.of_calls (.nextOperand hpasses hop hpass)) hright
      have hshorter : m.ahead.length < length := by
        have hsuffix := (suffix_of_outcome_operandAt hright).length_le
        rw [ahead_behind] at hsuffix
        rw [← hlength, hahead, List.length_cons]
        omega
      refine ih m.ahead.length hshorter (hpasses.next hop hpass hright) ?_ hout rfl
      simp only [Node.height]
      omega

/-- What a primary adds, each row adds `k`. -/
theorem height_operandAt {bound : Nat}
    (hprimary : ∀ {c c' : Cursor} {node : Node}, Frame.ChainsWithin k ⟨.operand 0, levels, c⟩ →
      outcome (primary (nested levels)) c = (.ok node, c') → node.height ≤ bound)
    (h : Frame.ChainsWithin k ⟨.operand row, levels, c⟩)
    (hout : outcome (operandAt (nested levels) row) c = (.ok node, c')) :
    node.height ≤ bound + row * k := by
  induction row generalizing c c' node with
  | zero =>
    rw [Nat.zero_mul]
    exact hprimary h hout
  | succ row ih =>
    rw [operandAt, chain_eq_chainRest] at hout
    obtain ⟨left, m, hleft, hout⟩ := outcome_bind_eq_ok.mp hout
    have hfirst := ih (h.of_calls .firstOperand) hleft
    rw [Nat.succ_mul, ← Nat.add_assoc]
    exact height_chainRest (fun hchains hout => ih hchains hout) h (.first hleft) hfirst hout

/-- What is read one level further in is bounded as it should be where that many levels are left. -/
def GroupsWithin (k levels : Nat) : Prop :=
  ∀ {deeper : Nat} {c c' : Cursor} {node : Node}, levels = deeper + 1 →
    Frame.ChainsWithin k ⟨.expression, deeper, c⟩ →
    outcome (expression (nested deeper)) c = (.ok node, c') → node.height ≤ 4 * k * levels + 1

/-- A primary is as high as its group, or one node. -/
theorem height_primary (hgroups : GroupsWithin k levels)
    (h : Frame.ChainsWithin k ⟨.operand 0, levels, c⟩)
    (hout : outcome (primary (nested levels)) c = (.ok node, c')) :
    node.height ≤ 4 * k * levels + 1 := by
  by_cases hnumber : c.isAt .number = true
  · obtain ⟨token, rest, hahead, -⟩ := exists_terminal_of_isAt hnumber
    rw [outcome_primary_of_number hahead token.property, Prod.mk.injEq, Except.ok.injEq] at hout
    obtain ⟨rfl, rfl⟩ := hout
    exact Nat.le_add_left 1 _
  by_cases hname : c.isAt .name = true
  · obtain ⟨token, rest, hahead, -⟩ := exists_terminal_of_isAt hname
    rw [outcome_primary_of_name hahead token.property, Prod.mk.injEq, Except.ok.injEq] at hout
    obtain ⟨rfl, rfl⟩ := hout
    exact Nat.le_add_left 1 _
  by_cases hparen : c.isAt .openParen = true
  · obtain ⟨opening, rest, hahead, hfirst⟩ := exists_terminal_of_isAt hparen
    rw [outcome_primary_of_openParen hahead opening.property] at hout
    obtain ⟨value, m, hgroup, hout⟩ := outcome_bind_eq_ok.mp hout
    obtain ⟨token, m', -, hout⟩ := outcome_bind_eq_ok.mp hout
    rw [outcome_pure, Prod.mk.injEq, Except.ok.injEq] at hout
    obtain ⟨rfl, rfl⟩ := hout
    cases levels with
    | zero => simp [nested] at hgroup
    | succ deeper => exact hgroups rfl (h.of_calls (.group opening hfirst)) hgroup
  · rw [outcome_primary_of_other (by simpa using hnumber) (by simpa using hname)
      (by simpa using hparen)] at hout
    simp at hout

/-- An expression is at most its equality, four rows above a primary, or one above what it
assigns. -/
theorem height_expression_of_groups (hk : 1 ≤ k) (hgroups : GroupsWithin k levels)
    (h : Frame.ChainsWithin k ⟨.expression, levels, c⟩)
    (hout : outcome (expression (nested levels)) c = (.ok node, c')) :
    node.height ≤ 4 * k * (levels + 1) + 1 := by
  rw [Nat.mul_succ]
  rw [expression_eq_assignRest] at hout
  obtain ⟨target, m, hleft, hrest⟩ := outcome_bind_eq_ok.mp hout
  rw [equality_eq_operandAt] at hleft
  have htarget := height_operandAt (fun hchains hout => height_primary hgroups hchains hout)
    (h.of_calls .equality) hleft
  cases hmark : m.isAt .assign with
  | false =>
    rw [outcome_assignRest_of_not_assign _ hmark, Prod.mk.injEq, Except.ok.injEq] at hrest
    obtain ⟨rfl, rfl⟩ := hrest
    omega
  | true =>
    obtain ⟨mark, rest, hahead, hpass⟩ := exists_terminal_of_isAt hmark
    rw [outcome_assignRest_of_assign _ hahead mark.property] at hrest
    rcases hright : outcome (nested levels).group (m.behind [mark.val] rest) with
      ⟨error | value, m'⟩
    · simp [hright] at hrest
    rw [hright] at hrest
    cases levels with
    | zero => simp [nested] at hright
    | succ deeper =>
      have hvalue := hgroups rfl (h.of_calls (.assigned mark hleft hpass)) hright
      cases hassign : assignment? target value with
      | none => simp [hassign] at hrest
      | some assigned =>
        simp only [hassign, Prod.mk.injEq, Except.ok.injEq] at hrest
        obtain ⟨rfl, rfl⟩ := hrest
        obtain ⟨name, line, rfl⟩ := exists_of_assignment?_eq_some hassign
        rw [Node.height]
        omega

/-- Each level adds at most four rows. -/
theorem height_expression (hk : 1 ≤ k) (h : Frame.ChainsWithin k ⟨.expression, levels, c⟩)
    (hout : outcome (expression (nested levels)) c = (.ok node, c')) :
    node.height ≤ 4 * k * (levels + 1) + 1 := by
  induction levels generalizing c c' node with
  | zero => exact height_expression_of_groups hk (fun hlevels => by simp at hlevels) h hout
  | succ levels ih =>
    refine height_expression_of_groups hk (fun hlevels hchains hout => ?_) h hout
    obtain rfl := Nat.succ.inj hlevels
    exact ih hchains hout

end Expressions

/-! ## The height of statements -/

/-- The rule that reads what is read, at work. -/
def Yield.frame (levels : Nat) (c : Cursor) : Yield → Frame
  | .statement _ => ⟨.statement, levels, c⟩
  | .declaration _ => ⟨.declaration, levels, c⟩
  | .declarations stop _ => ⟨.declarations stop, levels, c⟩

/-- No tree that was read is higher than that. -/
def Yield.HeightWithin (bound : Nat) : Yield → Prop
  | .statement node | .declaration node => node.height ≤ bound
  | .declarations _ nodes => ∀ node ∈ nodes, node.height ≤ bound

/-- One level more makes room for one node more. -/
theorem height_bound_succ {k : Nat} (hk : 1 ≤ k) (levels : Nat) :
    4 * k * (levels + 1) + 3 ≤ 4 * k * (levels + 1 + 1) + 2 := by
  rw [Nat.mul_add_one (4 * k) (levels + 1)]
  omega

/-- Where that many levels are left, a statement is at most one above an expression. -/
theorem Reads.heightWithin {k levels : Nat} {c c' : Cursor} {yield : Yield} (hk : 1 ≤ k)
    (hreads : Reads levels c yield c') (h : (yield.frame levels c).ChainsWithin k) :
    yield.HeightWithin (4 * k * (levels + 1) + 2) := by
  induction hreads with
  | print word semicolon hword hvalue _ =>
    have hheight := height_expression hk (h.of_calls (.printed word hword)) hvalue
    exact Nat.succ_le_succ hheight
  | evaluate semicolon hopens hvalue _ =>
    have hheight := height_expression hk (h.of_calls (.evaluated hopens)) hvalue
    exact Nat.succ_le_succ hheight
  | declare word name semicolon _ => exact Nat.le_add_left 1 _
  | define word name mark semicolon hstart hinitial _ =>
    have hheight := height_expression hk (h.of_calls (.initial word name mark hstart)) hinitial
    exact Nat.succ_le_succ hheight
  | plain hvar _ ih => exact ih (h.of_calls (.statement hvar))
  | @ifThen levels _ _ _ _ _ _ _ word opening closing hstart hcondition hclosing _ ihthen =>
    have htest := height_expression hk
      (h.of_calls (.condition (.inl rfl) word opening hstart)) hcondition
    have hthen := ihthen
      (h.of_calls (.body (.inl rfl) word opening closing hstart hcondition hclosing))
    have hlevel := height_bound_succ hk levels
    simp only [Yield.HeightWithin, Node.height] at hthen ⊢
    omega
  | @ifElse levels _ _ _ _ _ _ _ _ _ _ word opening closing otherwise hstart hcondition hclosing
      hout _ hmiddle _ ihthen ihelse =>
    have htest := height_expression hk
      (h.of_calls (.condition (.inl rfl) word opening hstart)) hcondition
    have hthen := ihthen
      (h.of_calls (.body (.inl rfl) word opening closing hstart hcondition hclosing))
    have helse := ihelse (h.of_calls
      (.elseBody word opening closing otherwise hstart hcondition hclosing hout hmiddle))
    have hlevel := height_bound_succ hk levels
    simp only [Yield.HeightWithin, Node.height] at hthen helse ⊢
    omega
  | @loop levels _ _ _ _ _ _ _ word opening closing hstart hcondition hclosing _ ihbody =>
    have htest := height_expression hk
      (h.of_calls (.condition (.inr rfl) word opening hstart)) hcondition
    have hbody := ihbody
      (h.of_calls (.body (.inr rfl) word opening closing hstart hcondition hclosing))
    have hlevel := height_bound_succ hk levels
    simp only [Yield.HeightWithin, Node.height] at hbody ⊢
    omega
  | @block levels _ _ _ _ nodes opening closing hfirst _ _ ihinner =>
    have hinner := Node.heightOf_le_iff.mpr (ihinner (h.of_calls (.block opening hfirst)))
    have hlevel := height_bound_succ hk levels
    simp only [Yield.HeightWithin, Node.height]
    omega
  | done => exact fun node hmem => by cases hmem
  | next hgoes hout _ _ ihfirst ihrest =>
    intro node hmem
    rcases List.mem_cons.mp hmem with rfl | hmem
    · exact ihfirst (h.of_calls (.declaration hgoes))
    · exact ihrest (h.of_calls (.later hgoes hout)) node hmem
  | giveUp hgoes hout _ _ ihrest =>
    intro node hmem
    rcases List.mem_cons.mp hmem with rfl | hmem
    · exact Nat.le_add_left 1 _
    · exact ihrest (h.of_calls (.later hgoes hout)) node hmem

/-! ## Rows are no longer than their operators are many -/

/-- How many of the tokens are operators of the row. -/
def countRow (row : Nat) (tokens : List Token) : Nat :=
  tokens.countP fun token => (operatorAt? row token.kind).isSome

/-- An end of the tokens has no more operators of a row. -/
theorem countRow_le_of_suffix (row : Nat) {tokens tokens' : List Token} (h : tokens' <:+ tokens) :
    countRow row tokens' ≤ countRow row tokens :=
  h.sublist.countP_le

/-- Each operator that a row passes is one of the operators ahead. -/
theorem Passes.add_countRow_le {row levels n : Nat} {c m : Cursor} (h : Passes row levels c n m) :
    n + countRow row m.ahead ≤ countRow row c.ahead := by
  induction h with
  | first hout =>
    rw [Nat.zero_add]
    exact countRow_le_of_suffix row (suffix_of_outcome_operandAt hout)
  | @next n m m' m'' sign op node _ hsign hpass hout ih =>
    have hoperand := countRow_le_of_suffix row (suffix_of_outcome_operandAt hout)
    have hcount : countRow row m.ahead = countRow row m'.ahead + 1 := by
      rw [hpass.ahead, countRow, List.singleton_append, List.countP_cons, hsign]
      rfl
    omega

/-- A row that passes operators leaves an end of what was ahead. -/
theorem Passes.suffix {row levels n : Nat} {c m : Cursor} (h : Passes row levels c n m) :
    m.ahead <:+ c.ahead := by
  induction h with
  | first hout => exact suffix_of_outcome_operandAt hout
  | next _ _ hpass hout ih =>
    exact (suffix_of_outcome_operandAt hout).trans ((suffix_of_moves hpass).trans ih)

/-- A call is made further ahead. -/
theorem Calls.suffix {frame frame' : Frame} (h : Calls frame frame') :
    frame'.cursor.ahead <:+ frame.cursor.ahead := by
  cases h with
  | declaration | statement | evaluated | equality | firstOperand => exact List.suffix_refl _
  | @later _ levels c _ _ _ hout =>
    obtain ⟨tokens, found, hmoves⟩ :=
      Steps.exists_moves (steps_declaration (nestedFollows levels) c)
    rw [hout] at hmoves
    exact suffix_of_moves hmoves
  | initial _ _ _ hstart => exact suffix_of_moves hstart
  | printed _ hword => exact suffix_of_moves hword
  | condition _ _ _ hstart => exact suffix_of_moves hstart
  | body _ _ _ _ hstart hcondition hclosing =>
    exact (suffix_of_moves hclosing).trans
      ((suffix_of_outcome_expression hcondition).trans (suffix_of_moves hstart))
  | @elseBody levels _ _ _ _ _ _ _ _ _ _ _ _ hstart hcondition hclosing hthen hmiddle =>
    obtain ⟨deeper, -, hreads⟩ := (nestedReads (levels + 1)).body hthen
    have hbranch := (suffix_of_moves hclosing).trans
      ((suffix_of_outcome_expression hcondition).trans (suffix_of_moves hstart))
    exact (suffix_of_moves hmiddle).trans (hreads.suffix.trans hbranch)
  | block _ hfirst => exact suffix_of_moves hfirst
  | assigned _ htarget hmark =>
    exact (suffix_of_moves hmark).trans (suffix_of_outcome_operandAt htarget)
  | nextOperand hpasses _ hpass => exact (suffix_of_moves hpass).trans hpasses.suffix
  | group _ hfirst => exact suffix_of_moves hfirst

/-- A rule that is called, directly or through others, has an end of the tokens ahead. -/
theorem suffix_of_reached {frame frame' : Frame} (h : ReflTransGen Calls frame frame') :
    frame'.cursor.ahead <:+ frame.cursor.ahead := by
  induction h with
  | refl => exact List.suffix_refl _
  | tail _ hcalls ih => exact hcalls.suffix.trans ih

/-- No row is longer than there are operators of it. -/
theorem chainsWithin_of_countRow {k : Nat} {frame : Frame}
    (h : ∀ row, countRow row frame.cursor.ahead ≤ k) : frame.ChainsWithin k := by
  intro row levels c hreached n m hpasses
  have hsuffix : c.ahead <:+ frame.cursor.ahead := suffix_of_reached hreached
  have hpassed := hpasses.add_countRow_le
  have hcount := countRow_le_of_suffix row hsuffix
  have hbound := h row
  omega

end Grammar

/-! ## What needs no more levels than the height -/

/-- An expression that is no higher than the headroom is not too deep for it. -/
theorem Node.keeps_eval_of_height {levels : Nat} {node : Node} (h : node.height ≤ levels) :
    Eval.Keeps (fun _ => True) (fun failure => failure.fault ≠ .nestedTooDeep) (fun _ => True)
      (node.eval (.levels levels)) := by
  induction levels generalizing node with
  | zero => exact absurd node.height_pos (by omega)
  | succ levels ih =>
    rw [Node.eval]
    cases node with
    | literal value line => exact Eval.keeps_pure trivial
    | reference name line =>
      refine Eval.keeps_get_bind fun vars _ => ?_
      cases vars[name]? with
      | none => exact meets_error trivial (by simp)
      | some value => exact meets_ok trivial trivial
    | assign name value line =>
      rw [Node.height] at h
      refine (ih (by omega)).bind fun found _ => ?_
      exact Eval.keeps_modify_bind (fun _ _ => trivial) (Eval.keeps_pure trivial)
    | binary op lhs rhs line =>
      rw [Node.height] at h
      refine (ih (by omega)).bind fun left _ => (ih (by omega)).bind fun right _ => ?_
      cases happly : op.apply left right with
      | error fault =>
        refine Eval.keeps_throw ?_
        rcases Operator.apply_eq_error happly with ⟨rfl, -⟩ | ⟨rfl, -⟩ <;> simp
      | ok value => exact Eval.keeps_pure trivial
    | _ => exact Eval.keeps_throw (by simp [Node.misplaced])

/-- A statement that is no higher than the headroom is not too deep for it. -/
theorem Node.keeps_exec_of_height {levels : Nat} (fuel : Nat) {node : Node}
    (h : node.height ≤ levels) :
    Exec.Keeps (fun _ => True) (fun failure => failure.fault ≠ .nestedTooDeep) (fun _ => True)
      (node.exec fuel (.levels levels)) := by
  induction fuel generalizing levels node with
  | zero => exact Exec.keeps_outOfFuel
  | succ fuel ih =>
    -- A loop goes on as itself with less fuel, in the room in which it was entered.
    have hloop := ih h
    rw [Node.exec]
    cases levels with
    | zero => exact absurd node.height_pos (by omega)
    | succ levels =>
      have heval {value : Node} (hvalue : value.height ≤ levels) :=
        Exec.keeps_ofEval (Node.keeps_eval_of_height hvalue)
      have hstore (name : String) (value : Value) :
          Exec.Keeps (fun _ => True) (fun failure => failure.fault ≠ .nestedTooDeep)
            (fun _ => True) (Exec.store name value) := Exec.keeps_store fun _ _ => trivial
      cases node with
      | evaluate value line =>
        rw [Node.height] at h
        exact (heval (by omega)).bind fun _ _ => Exec.keeps_pure trivial
      | print value line =>
        rw [Node.height] at h
        exact (heval (by omega)).bind fun _ _ => Exec.keeps_print _
      | declare name line => exact hstore name .null
      | define name initial line =>
        rw [Node.height] at h
        exact (heval (by omega)).bind fun value _ => hstore name value
      | block statements line =>
        rw [Node.height] at h
        have hall := Node.heightOf_le_iff.mp (Nat.le_of_succ_le_succ h)
        exact Exec.keeps_forAll fun node hmem => ih (hall node hmem)
      | ifThen condition thenBranch line =>
        rw [Node.height] at h
        refine (heval (by omega)).bind fun value _ => ?_
        split_ifs
        · exact ih (by omega)
        · exact Exec.keeps_pure trivial
      | ifElse condition thenBranch elseBranch line =>
        rw [Node.height] at h
        refine (heval (by omega)).bind fun value _ => ?_
        split_ifs
        · exact ih (by omega)
        · exact ih (by omega)
      | loop condition body line =>
        rw [Node.height] at h
        refine (heval (by omega)).bind fun value _ => ?_
        split_ifs
        · exact (ih (by omega)).bind fun _ _ => hloop
        · exact Exec.keeps_pure trivial
      | skipped message line => exact Exec.keeps_pure trivial
      | _ => exact Exec.keeps_throw (by simp [Node.misplaced])

/-- Both are there, and they are the same. -/
def Agree {α : Type} (x y : Option α) : Prop := ∃ a, x = some a ∧ y = some a

/-- What is there agrees with itself. -/
theorem agree_some {α : Type} (a : α) : Agree (some a) (some a) := ⟨a, rfl, rfl⟩

/-- What is computed from things that agree agrees. -/
theorem Agree.bind {α β : Type} {x y : Option α} {f g : α → Option β} (h : Agree x y)
    (hnext : ∀ a, Agree (f a) (g a)) : Agree (x >>= f) (y >>= g) := by
  obtain ⟨a, rfl, rfl⟩ := h
  exact hnext a

/-- Listings in a row agree if each of them does. -/
theorem Node.agree_listings {levels : Nat} {indent : Int} {nodes : List Node}
    (h : ∀ node ∈ nodes,
      Agree (node.listing? (.levels levels) indent) (node.listing? .unlimited indent)) :
    Agree (Node.listings? (.levels levels) indent nodes)
      (Node.listings? .unlimited indent nodes) := by
  induction nodes with
  | nil => exact agree_some []
  | cons first rest ih =>
    rw [Node.listings?, Node.listings?]
    refine (h first List.mem_cons_self).bind fun text => ?_
    exact (ih fun node hmem => h node (List.mem_cons_of_mem first hmem)).bind fun texts =>
      agree_some _

/-- A tree that is no higher than the headroom is listed as it is without a limit. -/
theorem Node.agree_listing_of_height {levels : Nat} {node : Node} (h : node.height ≤ levels)
    (indent : Int) :
    Agree (node.listing? (.levels levels) indent) (node.listing? .unlimited indent) := by
  induction levels generalizing node indent with
  | zero => exact absurd node.height_pos (by omega)
  | succ levels ih =>
    rw [Node.listing?, Node.listing?]
    cases node with
    | binary op lhs rhs line =>
      rw [Node.height] at h
      exact (ih (by omega) 0).bind fun left => (ih (by omega) 0).bind fun right => agree_some _
    | assign name value line =>
      rw [Node.height] at h
      exact (ih (by omega) 0).bind fun text => agree_some _
    | evaluate expression line =>
      rw [Node.height] at h
      exact (ih (by omega) 0).bind fun text => agree_some _
    | define name initial line =>
      rw [Node.height] at h
      exact (ih (by omega) 0).bind fun text => agree_some _
    | print expression line =>
      rw [Node.height] at h
      exact (ih (by omega) 0).bind fun text => agree_some _
    | ifThen condition thenBranch line =>
      rw [Node.height] at h
      exact (ih (by omega) 0).bind fun test => (ih (by omega) _).bind fun first => agree_some _
    | ifElse condition thenBranch elseBranch line =>
      rw [Node.height] at h
      exact (ih (by omega) 0).bind fun test => (ih (by omega) _).bind fun first =>
        (ih (by omega) _).bind fun second => agree_some _
    | loop condition body line =>
      rw [Node.height] at h
      exact (ih (by omega) 0).bind fun test => (ih (by omega) _).bind fun text => agree_some _
    | block statements line =>
      rw [Node.height] at h
      have hall := Node.heightOf_le_iff.mp (Nat.le_of_succ_le_succ h)
      exact (Node.agree_listings fun node hmem => ih (hall node hmem) _).bind fun texts =>
        agree_some _
    | _ => exact agree_some _

namespace Program

open Cursor Grammar

/-- The loop over the declarations of a program, at its beginning. -/
def startFrame (file : Option String) (tokens : TokenList) : Frame :=
  ⟨.declarations isAtEnd, maxNesting, Cursor.start file tokens⟩

/-- If no row of operators that is read has more than `k` operators, then no path in a statement is
longer than `196 * k + 2`, markers and recovered blocks included. With at least as many levels the
program is never too deep to run, and each of its statements has its listing. -/
theorem height_le_of_chainsWithin {file : Option String} {text : String} {program : Program}
    (h : Program.ofText file text = .ok program) {k : Nat} (hk : 1 ≤ k)
    (hchains : (startFrame file program.tokens).ChainsWithin k) :
    (∀ node ∈ program.statements, node.height ≤ 196 * k + 2) ∧
    ∀ limit ≥ 196 * k + 2,
      (∀ fuel machine failure machine',
        Exec.outcome (Node.execAll fuel (.levels limit) program.statements) machine =
          some (.error failure, machine') → failure.fault ≠ .nestedTooDeep) ∧
      ∀ node ∈ program.statements, ∀ indent,
        node.listing? (.levels limit) indent = some (node.listing indent) := by
  obtain ⟨tokens, -, rfl⟩ := exists_tokens_of_ofText h
  obtain ⟨c', hreads⟩ := reads_ofTokens file tokens
  have hheight : ∀ node ∈ (ofTokens file tokens).statements, node.height ≤ 196 * k + 2 := by
    intro node hmem
    have hle := hreads.heightWithin hk hchains node hmem
    unfold maxNesting at hle
    omega
  refine ⟨hheight, fun limit hlimit => ⟨fun fuel machine failure machine' hrun => ?_, ?_⟩⟩
  · have hkeeps := Exec.keeps_forAll fun node hmem =>
      Node.keeps_exec_of_height fuel ((hheight node hmem).trans hlimit)
    exact (hkeeps machine _ machine' trivial hrun).fails_of_error failure rfl
  · intro node hmem indent
    obtain ⟨text, hlimited, hunlimited⟩ :=
      Node.agree_listing_of_height ((hheight node hmem).trans hlimit) indent
    rw [hlimited, Node.listing, hunlimited, Option.getD_some]

/-- The tokens of `print (1 + 2) * 3 < 4 == 5;`. -/
def oneOfEachRow : List Token :=
  [⟨.printWord, "print", 1⟩, ⟨.openParen, "(", 1⟩, ⟨.number, "1", 1⟩, ⟨.plus, "+", 1⟩,
    ⟨.number, "2", 1⟩, ⟨.closeParen, ")", 1⟩, ⟨.times, "*", 1⟩, ⟨.number, "3", 1⟩,
    ⟨.less, "<", 1⟩, ⟨.number, "4", 1⟩, ⟨.equal, "==", 1⟩, ⟨.number, "5", 1⟩,
    ⟨.semicolon, ";", 1⟩]

/-- With one operator in each row, 198 levels suffice. -/
theorem height_le_of_chainsWithin_rows :
    ∃ program, Program.ofText none "print (1 + 2) * 3 < 4 == 5;" = .ok program ∧
      (startFrame none program.tokens).ChainsWithin 1 ∧
      (∀ node ∈ program.statements, node.height ≤ 198) ∧
      ∀ fuel machine failure machine',
        Exec.outcome (Node.execAll fuel (.levels 198) program.statements) machine =
          some (.error failure, machine') → failure.fault ≠ .nestedTooDeep := by
  have htokens : TokenList.ofText "print (1 + 2) * 3 < 4 == 5;" = .ok ⟨oneOfEachRow, 1⟩ := by
    decide +kernel
  have hprogram := ofText_of_tokens none htokens
  have hchains : (startFrame none ⟨oneOfEachRow, 1⟩).ChainsWithin 1 := by
    apply chainsWithin_of_countRow
    rintro (_ | _ | _ | _ | row)
    · decide
    · decide
    · decide
    · decide
    · exact Nat.zero_le 1
  obtain ⟨hheight, hlimit⟩ := height_le_of_chainsWithin hprogram (Nat.le_refl 1) hchains
  exact ⟨_, hprogram, hchains, hheight, (hlimit 198 (Nat.le_refl 198)).1⟩

end Program

end ScriptKit
