import ScriptKit.Proofs.Contracts
import ScriptKit.Proofs.Reading
import ScriptKit.Proofs.Scanning

/-!
# Where failures come from

A program that was read from a text can fail in few ways, and each of them points at a token of the
text: a variable that is not bound at its name, an operand that is no number and a division by zero
at the operator. The exception is a program that is too deep, which belongs to no line.

The tree is looked at first. Expressions stand where they are evaluated and statements where they
are executed, also in trees with markers, and what names a node is a token of the text. So no
evaluation comes to a node that means nothing there. Then the values are looked at: null, truth
values and numbers give nothing else, whatever is done with them.
-/

set_option autoImplicit false

namespace ScriptKit

/-! ## Trees that are made of tokens -/

namespace Node

/-- An expression whose variables and operators stand in the tokens, on the lines that they have
there, and whose literals are numbers. -/
inductive ExpressionFrom (tokens : List Token) : Node → Prop where
  | literal (x : Float) (line : SourceLine) : ExpressionFrom tokens (.literal (.number x) line)
  | reference {token : Token} (hmem : token ∈ tokens) (hkind : token.kind = .name) :
      ExpressionFrom tokens (.reference token.text (some token.line))
  | binary {op : Operator} {lhs rhs : Node} {token : Token} (hmem : token ∈ tokens)
      (hkind : token.kind = op.kind) (hlhs : ExpressionFrom tokens lhs)
      (hrhs : ExpressionFrom tokens rhs) :
      ExpressionFrom tokens (.binary op lhs rhs (some token.line))
  | assign (name : String) {value : Node} (line : SourceLine)
      (hvalue : ExpressionFrom tokens value) : ExpressionFrom tokens (.assign name value line)

/-- A statement with such expressions in their places and with statements in theirs. -/
inductive StatementFrom (tokens : List Token) : Node → Prop where
  | evaluate {value : Node} (line : SourceLine) (hvalue : value.ExpressionFrom tokens) :
      StatementFrom tokens (.evaluate value line)
  | print {value : Node} (line : SourceLine) (hvalue : value.ExpressionFrom tokens) :
      StatementFrom tokens (.print value line)
  | declare (name : String) (line : SourceLine) : StatementFrom tokens (.declare name line)
  | define (name : String) {initial : Node} (line : SourceLine)
      (hinitial : initial.ExpressionFrom tokens) : StatementFrom tokens (.define name initial line)
  | ifThen {condition thenBranch : Node} (line : SourceLine)
      (hcondition : condition.ExpressionFrom tokens) (hthen : StatementFrom tokens thenBranch) :
      StatementFrom tokens (.ifThen condition thenBranch line)
  | ifElse {condition thenBranch elseBranch : Node} (line : SourceLine)
      (hcondition : condition.ExpressionFrom tokens) (hthen : StatementFrom tokens thenBranch)
      (helse : StatementFrom tokens elseBranch) :
      StatementFrom tokens (.ifElse condition thenBranch elseBranch line)
  | loop {condition body : Node} (line : SourceLine) (hcondition : condition.ExpressionFrom tokens)
      (hbody : StatementFrom tokens body) : StatementFrom tokens (.loop condition body line)
  | block {statements : List Node} (line : SourceLine)
      (h : ∀ node ∈ statements, StatementFrom tokens node) :
      StatementFrom tokens (.block statements line)
  | skipped (message : String) (line : SourceLine) : StatementFrom tokens (.skipped message line)

end Node

namespace Grammar

open Cursor Parse

variable {tokens : List Token}

/-- The tree of a derivation of an expression, or of a part of one, is made of the tokens. -/
def Derivation.TreeFrom (tokens : List Token) : {s : Symbol} → Derivation s → Prop
  | .operand _, d | .expression, d => Node.ExpressionFrom tokens d.tree
  | .rest _, d =>
    ∀ left : Node, left.ExpressionFrom tokens → Node.ExpressionFrom tokens (d.tree left)
  | .statement, _ | .declaration, _ | .declarations, _ => True

/-- What is derived is made of the tokens that are derived. -/
theorem Derivation.treeFrom {s : Symbol} (d : Derivation s) (h : d.tokens ⊆ tokens) :
    d.TreeFrom tokens := by
  induction d with
  | literal token => exact .literal _ _
  | reference token => exact .reference (h (by simp)) token.property
  | group opening inner closing ih =>
    exact ih fun token hmem => h (by simp [hmem])
  | chain first more ihfirst ihmore =>
    exact ihmore (fun token hmem => h (by simp [hmem])) _
      (ihfirst fun token hmem => h (by simp [hmem]))
  | done => exact fun left hleft => hleft
  | operation sign op hsign operand more ihoperand ihmore =>
    intro left hleft
    apply ihmore fun token hmem => h (by simp [hmem])
    exact .binary (h (by simp)) (kind_eq_of_operatorAt? hsign) hleft
      (ihoperand fun token hmem => h (by simp [hmem]))
  | plain equality ih => exact ih h
  | assign target mark value ihtarget ihvalue =>
    have htarget := ihtarget fun token hmem => h (by simp [hmem])
    have hvalue := ihvalue fun token hmem => h (by simp [hmem])
    have hassign : Node.ExpressionFrom tokens
        ((assignment? target.tree value.tree).getD target.tree) := by
      cases hnode : assignment? target.tree value.tree with
      | none => exact htarget
      | some node =>
        obtain ⟨name, line, rfl⟩ := exists_of_assignment?_eq_some hnode
        exact .assign name line hvalue
    exact hassign
  | _ => trivial

/-- An expression that was read from an end of the tokens is made of the tokens. -/
theorem expressionFrom_of_outcome {levels : Nat} {c c' : Cursor} {value : Node}
    (hout : outcome (expression (nested levels)) c = (.ok value, c')) (h : c.ahead <:+ tokens) :
    value.ExpressionFrom tokens := by
  obtain ⟨d, -, rfl, hmoves⟩ := derives_of_outcome_expression hout
  apply d.treeFrom
  intro token hmem
  apply h.subset
  rw [hmoves.ahead]
  exact List.mem_append_left _ hmem

/-- What was read is made of the tokens. -/
def Yield.From (tokens : List Token) : Yield → Prop
  | .statement node | .declaration node => node.StatementFrom tokens
  | .declarations _ nodes => ∀ node ∈ nodes, node.StatementFrom tokens

/-- What is read is made of the tokens ahead. -/
theorem Reads.yieldFrom {levels : Nat} {c c' : Cursor} {yield : Yield}
    (hreads : Reads levels c yield c') (h : c.ahead <:+ tokens) : yield.From tokens := by
  induction hreads with
  | print word semicolon hword hvalue _ =>
    have hsub := (suffix_of_moves hword).trans h
    exact .print _ (expressionFrom_of_outcome hvalue hsub)
  | evaluate semicolon _ hvalue _ => exact .evaluate _ (expressionFrom_of_outcome hvalue h)
  | declare word name semicolon _ => exact .declare _ _
  | define word name mark semicolon hstart hinitial _ =>
    have hsub := (suffix_of_moves hstart).trans h
    exact .define _ _ (expressionFrom_of_outcome hinitial hsub)
  | plain _ _ ih => exact ih h
  | ifThen word opening closing hstart hcondition hclosing _ ihthen =>
    have hsub := (suffix_of_moves hstart).trans h
    have hbranch := (suffix_of_moves hclosing).trans
      ((suffix_of_outcome_expression hcondition).trans hsub)
    exact .ifThen _ (expressionFrom_of_outcome hcondition hsub) (ihthen hbranch)
  | ifElse word opening closing _ hstart hcondition hclosing _ hthen hmiddle _ ihthen ihelse =>
    have hsub := (suffix_of_moves hstart).trans h
    have hbranch := (suffix_of_moves hclosing).trans
      ((suffix_of_outcome_expression hcondition).trans hsub)
    have hother := (suffix_of_moves hmiddle).trans (hthen.suffix.trans hbranch)
    exact .ifElse _ (expressionFrom_of_outcome hcondition hsub) (ihthen hbranch) (ihelse hother)
  | loop word opening closing hstart hcondition hclosing _ ihbody =>
    have hsub := (suffix_of_moves hstart).trans h
    have hbranch := (suffix_of_moves hclosing).trans
      ((suffix_of_outcome_expression hcondition).trans hsub)
    exact .loop _ (expressionFrom_of_outcome hcondition hsub) (ihbody hbranch)
  | block opening closing hfirst _ _ ihinner =>
    exact .block _ (ihinner ((suffix_of_moves hfirst).trans h))
  | done => exact fun node hmem => by cases hmem
  | next _ _ hfirst _ ihfirst ihrest =>
    intro node hmem
    rcases List.mem_cons.mp hmem with rfl | hmem
    · exact ihfirst h
    · exact ihrest (hfirst.suffix.trans h) node hmem
  | giveUp _ _ hmoves _ ihrest =>
    intro node hmem
    rcases List.mem_cons.mp hmem with rfl | hmem
    · exact .skipped _ _
    · have hsub := (suffix_of_moves hmoves).trans h
      exact ihrest ((suffix_recover _ _).trans hsub) node hmem

end Grammar

/-! ## Values that a program can make -/

/-- Is the value one that programs compute with? -/
def Value.isPlain : Value → Bool
  | .foreign _ => false
  | _ => true

/-- All variables hold values that programs compute with. -/
def Variables.Plain (vars : Variables) : Prop :=
  ∀ (name : String) (value : Value), vars[name]? = some value → value.isPlain = true

/-- Binding a value that programs compute with keeps the variables plain. -/
theorem Variables.Plain.insert {vars : Variables} (h : vars.Plain) (name : String) {value : Value}
    (hvalue : value.isPlain = true) : Variables.Plain (vars.insert name value) := by
  intro other found hfound
  rw [Std.TreeMap.getElem?_insert] at hfound
  split_ifs at hfound with heq
  · obtain rfl := Option.some.inj hfound
    exact hvalue
  · exact h other found hfound

namespace Operator

/-- On numbers an operator makes a plain value. -/
theorem isPlain_of_onNumbers {op : Operator} {x y : Float} {value : Value}
    (h : op.onNumbers x y = .ok value) : value.isPlain = true := by
  unfold onNumbers at h
  cases op with
  | divide =>
    dsimp only at h
    split_ifs at h
    cases h
    rfl
  | modulo =>
    dsimp only at h
    split_ifs at h
    cases h
    rfl
  | _ =>
    cases h
    rfl

/-- Operators make plain values of all values. -/
theorem isPlain_of_apply {op : Operator} {lhs rhs value : Value}
    (h : op.apply lhs rhs = .ok value) : value.isPlain = true := by
  unfold apply at h
  split at h
  · cases h
    rfl
  · exact isPlain_of_onNumbers h
  · cases h

end Operator

/-- What holds of the variables and of their values stays true whatever a program does. -/
structure Sustained (inv : Variables → Prop) (good : Value → Prop) : Prop where
  of_getElem? : ∀ {vars : Variables} {name : String} {value : Value}, inv vars →
    vars[name]? = some value → good value
  insert : ∀ {vars : Variables} (name : String) {value : Value}, inv vars → good value →
    inv (vars.insert name value)
  null : good .null
  number : ∀ x : Float, good (.number x)
  apply : ∀ {op : Operator} {lhs rhs value : Value}, op.apply lhs rhs = .ok value → good value

/-- Programs compute with plain values only, if they start with such. -/
theorem sustained_plain : Sustained Variables.Plain fun value => value.isPlain = true where
  of_getElem? := fun h hfound => h _ _ hfound
  insert := fun name _ h hvalue => h.insert name hvalue
  null := rfl
  number := fun _ => rfl
  apply := Operator.isPlain_of_apply

/-- Nothing in particular is sustained by every program. -/
theorem sustained_true : Sustained (fun _ => True) fun _ => True :=
  ⟨fun _ _ => trivial, fun _ _ _ _ => trivial, trivial, fun _ => trivial, fun _ => trivial⟩

/-! ## Failures of a run -/

/-- A failure of which the tokens are the reason: a name that is not bound, an operator with a wrong
operand, a division by zero. A program that is too deep has no one token as a reason. -/
inductive Failure.ComesFrom (tokens : List Token) : Failure → Prop where
  | undefinedVariable {token : Token} (hmem : token ∈ tokens) (hkind : token.kind = .name) :
      ComesFrom tokens ⟨.undefinedVariable token.text, some token.line⟩
  | operandType {token : Token} (hmem : token ∈ tokens)
      (hkind : token.kind ∈ [.plus, .minus, .times, .divide, .modulo, .less, .greater]) :
      ComesFrom tokens ⟨.operandType token.text, some token.line⟩
  | divisionByZero {token : Token} (hmem : token ∈ tokens)
      (hkind : token.kind ∈ [.divide, .modulo]) :
      ComesFrom tokens ⟨.divisionByZero token.text, some token.line⟩
  | tooDeep : ComesFrom tokens .tooDeep

section Runs

variable {tokens : List Token} {inv : Variables → Prop} {good : Value → Prop}

/-- The tokens of operators are spelled as the operators are. -/
def Spelled (tokens : List Token) : Prop :=
  ∀ token ∈ tokens, ∀ op : Operator, token.kind = op.kind → token.text = op.spelling

/-- What is wrong with the operands of an operator comes from the token of the operator. -/
theorem comesFrom_of_apply (hspelled : Spelled tokens) {token : Token} (hmem : token ∈ tokens)
    {op : Operator} (hkind : token.kind = op.kind) {lhs rhs : Value} {fault : RuntimeFault}
    (h : op.apply lhs rhs = .error fault) : Failure.ComesFrom tokens ⟨fault, some token.line⟩ := by
  have htext := hspelled token hmem op hkind
  rcases Operator.apply_eq_error h with ⟨rfl, hequal⟩ | ⟨rfl, hdivides⟩
  · rw [← htext]
    refine .operandType hmem ?_
    rw [hkind]
    cases op <;> simp_all [Operator.kind]
  · rw [← htext]
    refine .divisionByZero hmem ?_
    rw [hkind]
    rcases hdivides with rfl | rfl <;> simp [Operator.kind]

/-- An expression that is made of tokens has a value, of which what is sustained holds, or fails at
one of the tokens. -/
theorem Node.ExpressionFrom.keeps (hsustained : Sustained inv good) (hspelled : Spelled tokens)
    {node : Node} (h : node.ExpressionFrom tokens) (room : Headroom) :
    Eval.Keeps inv (Failure.ComesFrom tokens) good (node.eval room) := by
  induction h generalizing room with
  | literal x line =>
    rw [Node.eval]
    cases room.enter? with
    | none => exact Eval.keeps_throw .tooDeep
    | some inner => exact Eval.keeps_pure (hsustained.number x)
  | @reference token hmem hkind =>
    rw [Node.eval]
    cases room.enter? with
    | none => exact Eval.keeps_throw .tooDeep
    | some inner =>
      refine Eval.keeps_get_bind fun vars hvars => ?_
      cases hfound : vars[token.text]? with
      | none => exact meets_error hvars (.undefinedVariable hmem hkind)
      | some value => exact meets_ok hvars (hsustained.of_getElem? hvars hfound)
  | @binary op lhs rhs token hmem hkind _ _ ihlhs ihrhs =>
    rw [Node.eval]
    cases room.enter? with
    | none => exact Eval.keeps_throw .tooDeep
    | some inner =>
      refine (ihlhs inner).bind fun left _ => (ihrhs inner).bind fun right _ => ?_
      cases happly : op.apply left right with
      | error fault => exact Eval.keeps_throw (comesFrom_of_apply hspelled hmem hkind happly)
      | ok value => exact Eval.keeps_pure (hsustained.apply happly)
  | assign name line _ ih =>
    rw [Node.eval]
    cases room.enter? with
    | none => exact Eval.keeps_throw .tooDeep
    | some inner =>
      refine (ih inner).bind fun value hvalue => ?_
      exact Eval.keeps_modify_bind (fun vars hvars => hsustained.insert name hvars hvalue)
        (Eval.keeps_pure hvalue)

/-- A statement that is made of tokens keeps what is sustained, and fails at one of the tokens. -/
theorem Node.StatementFrom.keepsAll (hsustained : Sustained inv good) (hspelled : Spelled tokens)
    (fuel : Nat) (room : Headroom) {node : Node} (h : node.StatementFrom tokens) :
    Exec.Keeps inv (Failure.ComesFrom tokens) (fun _ => True) (node.exec fuel room) := by
  induction fuel generalizing room node with
  | zero => exact Exec.keeps_outOfFuel
  | succ fuel ih =>
    -- A loop goes on as itself with less fuel, in the room in which it was entered.
    have hloop := ih room h
    rw [Node.exec]
    cases room.enter? with
    | none => exact Exec.keeps_throw .tooDeep
    | some inner =>
      have heval {value : Node} (hvalue : value.ExpressionFrom tokens) :=
        Exec.keeps_ofEval (hvalue.keeps hsustained hspelled inner)
      cases h with
      | evaluate line hvalue => exact (heval hvalue).bind fun _ _ => Exec.keeps_pure trivial
      | print line hvalue => exact (heval hvalue).bind fun value _ => Exec.keeps_print _
      | declare name line =>
        exact Exec.keeps_store fun vars hvars => hsustained.insert name hvars hsustained.null
      | define name line hinitial =>
        refine (heval hinitial).bind fun value hvalue => ?_
        exact Exec.keeps_store fun vars hvars => hsustained.insert name hvars hvalue
      | ifThen line hcondition hthen =>
        refine (heval hcondition).bind fun value _ => ?_
        split_ifs
        · exact ih inner hthen
        · exact Exec.keeps_pure trivial
      | ifElse line hcondition hthen helse =>
        refine (heval hcondition).bind fun value _ => ?_
        split_ifs
        · exact ih inner hthen
        · exact ih inner helse
      | loop line hcondition hbody =>
        refine (heval hcondition).bind fun value _ => ?_
        split_ifs
        · exact (ih inner hbody).bind fun _ _ => hloop
        · exact Exec.keeps_pure trivial
      | block line hstatements =>
        exact Exec.keeps_forAll fun node hmem => ih inner (hstatements node hmem)
      | skipped message line => exact Exec.keeps_pure trivial

/-- A statement that is made of tokens keeps variables plain, and fails at one of the tokens. -/
theorem Node.StatementFrom.keeps (hspelled : Spelled tokens) (fuel : Nat) (room : Headroom)
    {node : Node} (h : node.StatementFrom tokens) :
    Exec.Keeps Variables.Plain (Failure.ComesFrom tokens) (fun _ => True) (node.exec fuel room) :=
  h.keepsAll sustained_plain hspelled fuel room

end Runs

namespace Program

/-- A program that was read from a text, with syntax errors or without, and that runs on plain
variables leaves plain variables behind, whether it fails or not. If it fails then because it is too
deep, or at a token of the text: at a name that is not bound, at an arithmetic operator or a
comparison, or at a division by zero. It never comes to a node that means nothing. -/
theorem failure_comesFrom_token {file : Option String} {text : String} {program : Program}
    (h : Program.ofText file text = .ok program) {machine : Machine} (hplain : machine.vars.Plain)
    {fuel : Nat} {room : Headroom} {result : Except Failure Unit} {machine' : Machine}
    (hrun : Exec.outcome (Node.execAll fuel room program.statements) machine =
      some (result, machine')) :
    machine'.vars.Plain ∧ ∀ failure, result = .error failure →
      failure.ComesFrom program.tokens.tokens ∧ ∀ tag, failure.fault ≠ .unknownOperation tag := by
  obtain ⟨tokens, htokens, rfl⟩ := exists_tokens_of_ofText h
  obtain ⟨c', hreads⟩ := reads_ofTokens file tokens
  have hfrom := hreads.yieldFrom (List.suffix_refl _)
  have hspelled : Spelled tokens.tokens := fun token hmem op hkind =>
    TokenList.text_eq_spelling htokens hmem hkind
  have hmeets := Exec.keeps_forAll (fun node hmem =>
    (hfrom node hmem).keeps hspelled fuel room) machine result machine' hplain hrun
  refine ⟨hmeets.inv_vars, fun failure hfailure => ?_⟩
  have hcomes := hmeets.fails_of_error failure hfailure
  exact ⟨hcomes, fun tag => by cases hcomes <;> simp [Failure.tooDeep]⟩

/-- The tokens of a text with a malformed first line. -/
def nullSum : List Token :=
  [⟨.printWord, "print", 1⟩, ⟨.semicolon, ";", 1⟩, ⟨.varWord, "var", 2⟩, ⟨.name, "a", 2⟩,
    ⟨.semicolon, ";", 2⟩, ⟨.printWord, "print", 3⟩, ⟨.name, "a", 3⟩, ⟨.plus, "+", 3⟩,
    ⟨.name, "a", 3⟩, ⟨.semicolon, ";", 3⟩]

/-- The malformed line is passed over, and the sum of what is not a number fails at its sign. -/
theorem failure_comesFrom_token_sum :
    ∃ program machine', Program.ofText none "print ;\nvar a;\nprint a + a;" = .ok program ∧
      Variables.Plain ∅ ∧
      Exec.outcome (Node.execAll 1 .standard program.statements) ⟨∅, #[]⟩ =
        some (.error ⟨.operandType "+", some 3⟩, machine') ∧
      machine'.vars.Plain ∧
      Failure.ComesFrom program.tokens.tokens ⟨.operandType "+", some 3⟩ := by
  have htokens : TokenList.ofText "print ;\nvar a;\nprint a + a;" = .ok ⟨nullSum, 3⟩ := by
    decide +kernel
  have hprogram := ofText_of_tokens none htokens
  have hplain : Variables.Plain ∅ := fun name value hvalue => by simp at hvalue
  have hrun : Exec.outcome (Node.execAll 1 .standard (ofTokens none ⟨nullSum, 3⟩).statements)
      ⟨∅, #[]⟩ = some (.error ⟨.operandType "+", some 3⟩,
        ⟨(∅ : Variables).insert "a" .null, #[]⟩) := rfl
  obtain ⟨hafter, hfailure⟩ := failure_comesFrom_token hprogram hplain hrun
  exact ⟨_, _, hprogram, hplain, hrun, hafter, (hfailure _ rfl).1⟩

end Program

end ScriptKit
