import ScriptKit.Proofs.Outcome

/-!
# The route of a cursor through the tokens

All that the rules of the grammar ever do to a cursor is to pass a token or to recover from an
error. `Cursor.Step` is the relation of these two steps, and `Cursor.Glide` is the step that
expressions are limited to: it passes a token that an expression may hold.

Every rule follows such steps, whatever the tokens are and however the rule ends. An error is
raised at some cursor on the way, and behind that cursor only tokens of an expression are passed
before the rule gives up. What holds of single steps and is transitive therefore holds of every
rule. This file has the laws of following and the rules of expressions; `ScriptKit.Proofs.Progress`
has the rules of statements.
-/

set_option autoImplicit false

namespace ScriptKit

open Relation (ReflTransGen)

/-- May a token of this kind stand inside an expression? -/
def Token.Kind.inExpression : Token.Kind → Bool
  | .number | .name | .equal | .assign | .openParen | .closeParen | .plus | .minus | .times
  | .divide | .modulo | .less | .greater => true
  | _ => false

namespace Cursor

/-- A step past a token that an expression may hold. -/
inductive Glide : Cursor → Cursor → Prop where
  | pass {c : Cursor} {token : Token} {rest : List Token} (h : c.ahead = token :: rest)
      (hkind : token.kind.inExpression = true) : Glide c c.advance

/-- A step of a rule. Recovery starts at the cursor where the error is raised; the rest of the
expression that was being read may be passed before the rule gives up. -/
inductive Step : Cursor → Cursor → Prop where
  | pass (c : Cursor) : Step c c.advance
  | recover {m c : Cursor} (complaint : Complaint) (h : ReflTransGen Glide m c) :
      Step m (c.recover (m.errorHere complaint))

/-- Some number of steps past tokens of an expression. -/
abbrev Glides : Cursor → Cursor → Prop := ReflTransGen Glide

/-- Some number of steps. -/
abbrev Steps : Cursor → Cursor → Prop := ReflTransGen Step

/-- Passing a token of an expression is a step. -/
theorem Glide.step {c c' : Cursor} (h : Glide c c') : Step c c' := by
  cases h with
  | pass => exact Step.pass c

/-- Passing tokens of an expression is a number of steps. -/
theorem Glides.steps {c c' : Cursor} (h : Glides c c') : Steps c c' :=
  ReflTransGen.mono (fun _ _ => Glide.step) c c' h

end Cursor

namespace Parse

open Cursor

/-- The action takes steps of the given sort from the cursor. If it ends in an error, then the
error was raised on the way and only tokens of an expression were passed since. -/
def FollowsAt {α : Type} (step : Cursor → Cursor → Prop) (action : Parse α) (c : Cursor) : Prop :=
  match outcome action c with
  | (.ok _, c') => ReflTransGen step c c'
  | (.error error, c') =>
    ∃ m complaint, ReflTransGen step c m ∧ Glides m c' ∧ error = m.errorHere complaint

/-- The action takes steps of the given sort from every cursor. -/
def Follows {α : Type} (step : Cursor → Cursor → Prop) (action : Parse α) : Prop :=
  ∀ c, FollowsAt step action c

variable {α β : Type} {step : Cursor → Cursor → Prop}

/-- An action that succeeds has taken steps from the cursor to where it stopped. -/
theorem FollowsAt.of_ok {action : Parse α} {c c' : Cursor} {a : α}
    (h : FollowsAt step action c) (hok : outcome action c = (.ok a, c')) :
    ReflTransGen step c c' := by
  rw [FollowsAt, hok] at h
  exact h

/-- An action that fails has taken steps to where its error was raised, and from there has passed
only tokens of an expression. -/
theorem FollowsAt.of_error {action : Parse α} {c c' : Cursor} {error : SyntaxError}
    (h : FollowsAt step action c) (herror : outcome action c = (.error error, c')) :
    ∃ m complaint, ReflTransGen step c m ∧ Glides m c' ∧ error = m.errorHere complaint := by
  rw [FollowsAt, herror] at h
  exact h

/-- Returning a value takes no steps. -/
theorem followsAt_pure (a : α) (c : Cursor) : FollowsAt step (pure a : Parse α) c :=
  ReflTransGen.refl

/-- Raising an error takes no steps, and the error is about the cursor. -/
theorem followsAt_fail (complaint : Complaint) (c : Cursor) :
    FollowsAt step (fail complaint : Parse α) c :=
  ⟨c, complaint, .refl, .refl, rfl⟩

/-- The way of a chain is the way of its first action and then that of the second. -/
theorem FollowsAt.bind {action : Parse α} {next : α → Parse β} {c : Cursor}
    (h : FollowsAt step action c)
    (hnext : ∀ a m, outcome action c = (.ok a, m) → FollowsAt step (next a) m) :
    FollowsAt step (action >>= next) c := by
  rcases hfirst : outcome action c with ⟨_ | a, m⟩
  · rename_i error
    obtain ⟨raised, complaint, hraised, hgives, rfl⟩ := h.of_error hfirst
    rw [FollowsAt, outcome_bind_of_error hfirst]
    exact ⟨raised, complaint, hraised, hgives, rfl⟩
  · have hto := h.of_ok hfirst
    have hrest := hnext a m hfirst
    rw [FollowsAt, outcome_bind_of_ok hfirst]
    rcases hsecond : outcome (next a) m with ⟨_ | b, c'⟩
    · obtain ⟨raised, complaint, hraised, hgives, rfl⟩ := hrest.of_error hsecond
      exact ⟨raised, complaint, hto.trans hraised, hgives, rfl⟩
    · exact hto.trans (hrest.of_ok hsecond)

/-- An action that goes on like another one after a step. -/
theorem FollowsAt.of_step {action next : Parse α} {c m : Cursor} (hstep : step c m)
    (heq : outcome action c = outcome next m) (h : FollowsAt step next m) :
    FollowsAt step action c := by
  rw [FollowsAt, heq]
  rcases hout : outcome next m with ⟨_ | a, c'⟩
  · obtain ⟨raised, complaint, hraised, hgives, rfl⟩ := h.of_error hout
    exact ⟨raised, complaint, ReflTransGen.head hstep hraised, hgives, rfl⟩
  · exact ReflTransGen.head hstep (h.of_ok hout)

/-- Looking at the cursor takes no steps. -/
theorem followsAt_get_bind {next : Cursor → Parse β} {c : Cursor}
    (h : FollowsAt step (next c) c) : FollowsAt step (get >>= next) c := by
  rw [FollowsAt, outcome_get_bind]
  exact h

/-- An action behind the next token, if that token may be passed. -/
theorem followsAt_advance_bind {next : Unit → Parse β} {c : Cursor} (hstep : step c c.advance)
    (h : FollowsAt step (next ()) c.advance) : FollowsAt step (advance >>= next) c := by
  refine FollowsAt.bind ?_ ?_
  · exact ReflTransGen.single hstep
  · intro a m hok
    rw [outcome_advance, Prod.mk.injEq] at hok
    exact hok.2 ▸ h

/-- An expectation takes at most the step past the token that it expects. -/
theorem followsAt_expect {kind : Token.Kind} (complaint : Complaint) {c : Cursor}
    (hstep : c.isAt kind = true → step c c.advance) : FollowsAt step (expect kind complaint) c := by
  cases hat : c.isAt kind with
  | false =>
    rw [FollowsAt, outcome_expect_of_not_isAt complaint hat]
    exact ⟨c, complaint, .refl, .refl, rfl⟩
  | true =>
    obtain ⟨token, rest, hahead, rfl⟩ := exists_ahead_of_isAt hat
    rw [FollowsAt, outcome_expect_of_ahead complaint hahead, ← advance_of_ahead hahead]
    exact ReflTransGen.single (hstep hat)

/-- An expectation follows steps from every cursor. -/
theorem follows_expect (kind : Token.Kind) (complaint : Complaint) :
    Follows Step (expect kind complaint) :=
  fun c => followsAt_expect complaint fun _ => Step.pass c

/-- What follows glides follows steps. -/
theorem Follows.toStep {action : Parse α} (h : Follows Glide action) : Follows Step action := by
  intro c
  rcases hout : outcome action c with ⟨_ | a, c'⟩
  · obtain ⟨m, complaint, hraised, hgives, rfl⟩ := (h c).of_error hout
    rw [FollowsAt, hout]
    exact ⟨m, complaint, Glides.steps hraised, hgives, rfl⟩
  · rw [FollowsAt, hout]
    exact Glides.steps ((h c).of_ok hout)

/-- Whether it succeeds or not, the action leads along steps. -/
theorem Follows.steps {action : Parse α} {result : Except SyntaxError α} {c c' : Cursor}
    (h : Follows Step action) (hout : outcome action c = (result, c')) : Steps c c' := by
  cases result with
  | error error =>
    obtain ⟨m, complaint, hraised, hgives, -⟩ := (h c).of_error hout
    exact hraised.trans (Glides.steps hgives)
  | ok a => exact (h c).of_ok hout

/-- Two actions that follow steps follow steps one after the other. -/
theorem Follows.bind {action : Parse α} {next : α → Parse β} (h : Follows step action)
    (hnext : ∀ a, Follows step (next a)) : Follows step (action >>= next) :=
  fun c => (h c).bind fun a m _ => hnext a m

end Parse

namespace Grammar

open Cursor Parse

/-- The operators of the rows, the row that binds tightest first. -/
def operatorAt? : Nat → Token.Kind → Option Operator
  | 0 => factorOperator?
  | 1 => termOperator?
  | 2 => comparisonOperator?
  | 3 => equalityOperator?
  | _ => fun _ => none

/-- The rule for operands of the given row: a primary for the first row, else an expression with
operators of tighter rows only. -/
def operandAt (inner : Nested) : Nat → Parse Node
  | 0 => primary inner
  | row + 1 => chain (operatorAt? row) (operandAt inner row)

/-- The rule for equality is that for operands of the loosest row. -/
theorem equality_eq_operandAt (inner : Nested) : equality inner = operandAt inner 4 := rfl

/-- Operators may stand inside expressions. -/
theorem inExpression_of_operatorAt? {row : Nat} {kind : Token.Kind} {op : Operator}
    (h : operatorAt? row kind = some op) : kind.inExpression = true := by
  match row with
  | 0 => cases kind <;> simp_all [operatorAt?, factorOperator?, Token.Kind.inExpression]
  | 1 => cases kind <;> simp_all [operatorAt?, termOperator?, Token.Kind.inExpression]
  | 2 => cases kind <;> simp_all [operatorAt?, comparisonOperator?, Token.Kind.inExpression]
  | 3 => cases kind <;> simp_all [operatorAt?, equalityOperator?, Token.Kind.inExpression]
  | _ + 4 => simp [operatorAt?] at h

variable {inner : Nested}

/-- A primary passes tokens of an expression only. -/
theorem follows_primary (h : Follows Glide inner.group) : Follows Glide (primary inner) := by
  intro c
  cases hnumber : c.isAt .number with
  | true =>
    obtain ⟨token, rest, hahead, hkind⟩ := exists_ahead_of_isAt hnumber
    rw [FollowsAt, outcome_primary_of_number hahead hkind, ← advance_of_ahead hahead]
    exact ReflTransGen.single (Glide.pass hahead (by rw [hkind]; rfl))
  | false =>
    cases hname : c.isAt .name with
    | true =>
      obtain ⟨token, rest, hahead, hkind⟩ := exists_ahead_of_isAt hname
      rw [FollowsAt, outcome_primary_of_name hahead hkind, ← advance_of_ahead hahead]
      exact ReflTransGen.single (Glide.pass hahead (by rw [hkind]; rfl))
    | false =>
      cases hparen : c.isAt .openParen with
      | true =>
        obtain ⟨token, rest, hahead, hkind⟩ := exists_ahead_of_isAt hparen
        have hpass : Glide c (c.behind [token] rest) :=
          advance_of_ahead hahead ▸ Glide.pass hahead (by rw [hkind]; rfl)
        refine FollowsAt.of_step hpass (outcome_primary_of_openParen hahead hkind) ?_
        refine (h _).bind fun node m _ => ?_
        refine FollowsAt.bind (followsAt_expect _ fun hat => ?_) fun _ _ _ => followsAt_pure _ _
        obtain ⟨closing, after, hclosing, hclose⟩ := exists_ahead_of_isAt hat
        exact Glide.pass hclosing (by rw [hclose]; rfl)
      | false =>
        rw [FollowsAt, outcome_primary_of_other hnumber hname hparen]
        exact ⟨c, .expectedExpression, .refl, .refl, rfl⟩

/-- A row of operators passes tokens of an expression only, if its operands do. -/
theorem follows_chainFrom {operator? : Token.Kind → Option Operator} {operand : Parse Node}
    (hkinds : ∀ kind op, operator? kind = some op → kind.inExpression = true)
    (h : Follows Glide operand) (rounds : List Token) (left : Node) :
    Follows Glide (chainFrom operator? operand rounds left) := by
  induction rounds generalizing left with
  | nil => exact fun c => followsAt_pure left c
  | cons round rounds ih =>
    intro c
    cases hsign : c.ahead.head?.bind (operator? ·.kind) with
    | none =>
      rw [FollowsAt, outcome_chainFrom_of_none _ left hsign]
    | some op =>
      obtain ⟨token, hhead, hop⟩ := Option.bind_eq_some_iff.mp hsign
      obtain ⟨rest, hahead⟩ := List.head?_eq_some_iff.mp hhead
      have hpass : Glide c (c.behind [token] rest) :=
        advance_of_ahead hahead ▸ Glide.pass hahead (hkinds _ _ hop)
      refine FollowsAt.of_step hpass (outcome_chainFrom_of_some round rounds left hahead hop) ?_
      exact (h _).bind fun right m _ => ih _ m

/-- Operands with operators between them pass tokens of an expression only. -/
theorem follows_chain {operator? : Token.Kind → Option Operator} {operand : Parse Node}
    (hkinds : ∀ kind op, operator? kind = some op → kind.inExpression = true)
    (h : Follows Glide operand) : Follows Glide (chain operator? operand) :=
  h.bind fun first _ => followsAt_get_bind (follows_chainFrom hkinds h _ first _)

/-- An operand of any row passes tokens of an expression only. -/
theorem follows_operandAt (h : Follows Glide inner.group) (row : Nat) :
    Follows Glide (operandAt inner row) := by
  induction row with
  | zero => exact follows_primary h
  | succ row ih => exact follows_chain (fun _ _ => inExpression_of_operatorAt?) ih

/-- The rest of an expression keeps to tokens of expressions. The target of an assignment is refused
at the assignment mark, after the value behind the mark was passed. -/
theorem follows_assignRest (h : Follows Glide inner.group) (target : Node) :
    Follows Glide (assignRest inner target) := by
  intro m
  cases hat : m.isAt .assign with
  | false =>
    rw [FollowsAt, outcome_assignRest_of_not_assign target hat]
  | true =>
    obtain ⟨mark, rest, hahead, hmark⟩ := exists_ahead_of_isAt hat
    have hpass : Glide m (m.behind [mark] rest) :=
      advance_of_ahead hahead ▸ Glide.pass hahead (by rw [hmark]; rfl)
    rw [FollowsAt, outcome_assignRest_of_assign target hahead hmark]
    rcases hvalue : outcome inner.group (m.behind [mark] rest) with ⟨_ | value, c'⟩
    · obtain ⟨raised, complaint, hraised, hgives, rfl⟩ := (h _).of_error hvalue
      exact ⟨raised, complaint, ReflTransGen.head hpass hraised, hgives, rfl⟩
    · have hfrom : Glides m c' := ReflTransGen.head hpass ((h _).of_ok hvalue)
      cases hassign : assignment? target value with
      | some node =>
        simp only [hassign]
        exact hfrom
      | none =>
        simp only [hassign]
        exact ⟨m, .invalidTarget, .refl, hfrom, rfl⟩

/-- An expression passes tokens of an expression only, if groups do. -/
theorem follows_expression (h : Follows Glide inner.group) : Follows Glide (expression inner) :=
  (follows_operandAt h 4).bind (follows_assignRest h)

end Grammar

end ScriptKit
