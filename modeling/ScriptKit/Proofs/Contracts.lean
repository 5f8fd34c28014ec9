import ScriptKit.Proofs.Execution

/-!
# What evaluation and execution keep

A contract has three parts: what holds of the variables before and after, whether the run fails or
not, what holds of the value, and how the run may fail. It is stated of the outcome of one step and
carried through chains of steps. A contract of `Node.eval` or `Node.exec` then takes one case for
each form of a node. How operators fail, on which all such contracts rest, comes first.
-/

set_option autoImplicit false

namespace ScriptKit

namespace Operator

/-- On numbers an operator fails only if it divides by zero. -/
theorem onNumbers_eq_error {op : Operator} {x y : Float} {fault : RuntimeFault}
    (h : op.onNumbers x y = .error fault) :
    fault = .divisionByZero op.spelling ∧ (op = .divide ∨ op = .modulo) := by
  unfold onNumbers at h
  cases op with
  | divide =>
    dsimp only at h
    split_ifs at h
    exact ⟨(Except.error.inj h).symm, .inl rfl⟩
  | modulo =>
    dsimp only at h
    split_ifs at h
    exact ⟨(Except.error.inj h).symm, .inr rfl⟩
  | _ => cases h

/-- An operator fails at its operands unless it is equality, and at a zero if it divides. -/
theorem apply_eq_error {op : Operator} {lhs rhs : Value} {fault : RuntimeFault}
    (h : op.apply lhs rhs = .error fault) :
    fault = .operandType op.spelling ∧ op ≠ .equal ∨
      fault = .divisionByZero op.spelling ∧ (op = .divide ∨ op = .modulo) := by
  unfold apply at h
  split at h
  · cases h
  · exact .inr (onNumbers_eq_error h)
  · rename_i hequal _
    exact .inl ⟨(Except.error.inj h).symm, hequal⟩

end Operator

variable {α β : Type} {inv : Variables → Prop} {fails : Failure → Prop} {good : α → Prop}
  {good' : β → Prop}

/-- An outcome as it should be: the variables, the value if there is one, and the failure if there
is one. -/
structure Meets (inv : Variables → Prop) (fails : Failure → Prop) (good : α → Prop)
    (result : Except Failure α) (vars : Variables) : Prop where
  inv_vars : inv vars
  good_of_ok : ∀ a, result = .ok a → good a
  fails_of_error : ∀ failure, result = .error failure → fails failure

/-- A value as it should be, with such variables, is an outcome as it should be. -/
theorem meets_ok {vars : Variables} {a : α} (hvars : inv vars) (ha : good a) :
    Meets inv fails good (.ok a) vars :=
  ⟨hvars, fun _ heq => Except.ok.inj heq ▸ ha, fun _ heq => by simp at heq⟩

/-- A failure as it should be, with such variables, is an outcome as it should be. -/
theorem meets_error {vars : Variables} {failure : Failure} (hvars : inv vars)
    (h : fails failure) : Meets inv fails good (.error failure) vars :=
  ⟨hvars, fun _ heq => by simp at heq, fun _ heq => Except.error.inj heq ▸ h⟩

namespace Eval

/-- From variables as they should be, the outcome is as it should be. -/
def Keeps (inv : Variables → Prop) (fails : Failure → Prop) (good : α → Prop) (action : Eval α) :
    Prop :=
  ∀ vars, inv vars → Meets inv fails good (outcome action vars).1 (outcome action vars).2

/-- Returning a value keeps what holds of the variables. -/
theorem keeps_pure {a : α} (ha : good a) : Keeps inv fails good (pure a : Eval α) :=
  fun _ hvars => meets_ok hvars ha

/-- Failing keeps what holds of the variables. -/
theorem keeps_throw {failure : Failure} (h : fails failure) :
    Keeps inv fails good (throw failure : Eval α) := fun _ hvars => meets_error hvars h

/-- Evaluations in a row keep what each of them keeps. The second one may count on what the first
one returns. -/
theorem Keeps.bind {action : Eval α} {next : α → Eval β} (h : Keeps inv fails good action)
    (hnext : ∀ a, good a → Keeps inv fails good' (next a)) :
    Keeps inv fails good' (action >>= next) := by
  intro vars hvars
  have hfirst := h vars hvars
  rw [outcome_bind]
  rcases hout : outcome action vars with ⟨failure | a, vars'⟩
  · rw [hout] at hfirst
    exact meets_error hfirst.inv_vars (hfirst.fails_of_error _ rfl)
  · rw [hout] at hfirst
    exact hnext a (hfirst.good_of_ok _ rfl) vars' hfirst.inv_vars

/-- A step that looks at the variables. -/
theorem keeps_get_bind {next : Variables → Eval β}
    (h : ∀ vars, inv vars →
      Meets inv fails good' (outcome (next vars) vars).1 (outcome (next vars) vars).2) :
    Keeps inv fails good' (get >>= next) := fun vars hvars => h vars hvars

/-- A change of the variables has to keep what holds of them, and then the evaluation goes on. -/
theorem keeps_modify_bind {change : Variables → Variables} {next : Unit → Eval β}
    (hchange : ∀ vars, inv vars → inv (change vars)) (h : Keeps inv fails good' (next ())) :
    Keeps inv fails good' (modify change >>= next) := fun vars hvars =>
  h (change vars) (hchange vars hvars)

end Eval

namespace Exec

/-- From variables as they should be, the outcome is as it should be if the fuel suffices. -/
def Keeps (inv : Variables → Prop) (fails : Failure → Prop) (good : α → Prop) (action : Exec α) :
    Prop :=
  ∀ (machine : Machine) result machine', inv machine.vars →
    outcome action machine = some (result, machine') → Meets inv fails good result machine'.vars

/-- Where the fuel is used up there is no outcome that could be wrong. -/
theorem keeps_outOfFuel : Keeps inv fails good (outOfFuel : Exec α) := by
  intro machine result machine' _ hout
  cases hout

/-- Returning a value keeps what holds of the variables. -/
theorem keeps_pure {a : α} (ha : good a) : Keeps inv fails good (pure a : Exec α) := by
  intro machine result machine' hvars hout
  cases hout
  exact meets_ok hvars ha

/-- Failing keeps what holds of the variables. -/
theorem keeps_throw {failure : Failure} (h : fails failure) :
    Keeps inv fails good (throw failure : Exec α) := by
  intro machine result machine' hvars hout
  cases hout
  exact meets_error hvars h

/-- A run keeps what the evaluations in it keep. -/
theorem keeps_ofEval {action : Eval α} (h : Eval.Keeps inv fails good action) :
    Keeps inv fails good (ofEval action) := by
  intro machine result machine' hvars hout
  cases hout
  exact h machine.vars hvars

/-- Binding a variable has to keep what holds of the variables. -/
theorem keeps_store {name : String} {value : Value}
    (h : ∀ vars, inv vars → inv (vars.insert name value)) :
    Keeps inv fails (fun _ => True) (store name value) := by
  intro machine result machine' hvars hout
  cases hout
  exact meets_ok (h machine.vars hvars) trivial

/-- Printing does not touch the variables. -/
theorem keeps_print (line : String) : Keeps inv fails (fun _ => True) (print line) := by
  intro machine result machine' hvars hout
  cases hout
  exact meets_ok hvars trivial

/-- Steps in a row keep what each of them keeps. The second one may count on what the first one
returns. -/
theorem Keeps.bind {action : Exec α} {next : α → Exec β} (h : Keeps inv fails good action)
    (hnext : ∀ a, good a → Keeps inv fails good' (next a)) :
    Keeps inv fails good' (action >>= next) := by
  intro machine result machine' hvars hout
  rw [outcome_bind] at hout
  rcases hfirst : outcome action machine with _ | ⟨failure | a, middle⟩
  · simp [hfirst] at hout
  · have hmeets := h machine _ _ hvars hfirst
    simp only [hfirst, Option.some.injEq, Prod.mk.injEq] at hout
    obtain ⟨rfl, rfl⟩ := hout
    exact meets_error hmeets.inv_vars (hmeets.fails_of_error _ rfl)
  · have hmeets := h machine _ _ hvars hfirst
    rw [hfirst] at hout
    exact hnext a (hmeets.good_of_ok _ rfl) _ _ _ hmeets.inv_vars hout

/-- Steps for all nodes keep what the step for each node keeps. -/
theorem keeps_forAll {step : Node → Exec Unit} {nodes : List Node}
    (h : ∀ node ∈ nodes, Keeps inv fails (fun _ => True) (step node)) :
    Keeps inv fails (fun _ => True) (forAll step nodes) := by
  induction nodes with
  | nil => exact keeps_pure trivial
  | cons first rest ih =>
    exact (h first List.mem_cons_self).bind fun _ _ =>
      ih fun node hmem => h node (List.mem_cons_of_mem first hmem)

end Exec

end ScriptKit
