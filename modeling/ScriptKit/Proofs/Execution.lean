import ScriptKit.Proofs.Resemblance
import ScriptKit.Session

/-!
# How execution depends on fuel, lines and what was printed

More fuel does not change a run that has come to its end. Programs that differ in their lines only
run in the same way: they leave the same variables behind, they print the same lines, behind
whatever was printed before, and if they fail then for the same reason, on corresponding lines.
-/

set_option autoImplicit false

namespace ScriptKit

/-! ## Headroom -/

/-- The second headroom is at least the first one. -/
inductive Headroom.Within : Headroom → Headroom → Prop where
  | unlimited (room : Headroom) : Within room .unlimited
  | levels {n m : Nat} (h : n ≤ m) : Within (.levels n) (.levels m)

/-- Where the smaller headroom can be entered, the larger one can be, and stays larger. -/
theorem Headroom.Within.enter {room room' inner : Headroom} (h : room.Within room')
    (henter : room.enter? = some inner) :
    ∃ inner', room'.enter? = some inner' ∧ inner.Within inner' := by
  cases h with
  | unlimited => exact ⟨.unlimited, rfl, .unlimited inner⟩
  | @levels n m hle =>
    cases n with
    | zero => cases henter
    | succ n =>
      cases henter
      obtain ⟨m, rfl⟩ : ∃ k, m = k + 1 := ⟨m - 1, by omega⟩
      exact ⟨.levels m, rfl, .levels (Nat.le_of_succ_le_succ hle)⟩

/-- What has room for more levels has room for fewer. -/
theorem Headroom.Within.of_le {n m : Nat} {room : Headroom} (h : (Headroom.levels m).Within room)
    (hle : n ≤ m) : (Headroom.levels n).Within room := by
  cases h with
  | unlimited => exact .unlimited _
  | levels hm => exact .levels (hle.trans hm)

/-! ## Fuel -/

namespace Eval

/-- The result of an evaluation, and the variables after it. -/
def outcome {α : Type} (action : Eval α) (vars : Variables) : Except Failure α × Variables :=
  action vars

/-- A chain of two evaluations ends early if the first one fails. -/
theorem outcome_bind {α β : Type} (action : Eval α) (next : α → Eval β) (vars : Variables) :
    outcome (action >>= next) vars =
      match outcome action vars with
      | (.ok a, vars') => outcome (next a) vars'
      | (.error failure, vars') => (.error failure, vars') := by
  have hchain : outcome (action >>= next) vars =
      ExceptT.bindCont (m := StateM Variables) next (outcome action vars).1
        (outcome action vars).2 := rfl
  rw [hchain]
  obtain ⟨result, vars'⟩ := outcome action vars
  cases result <;> rfl

/-- A step that looks at the variables. -/
theorem outcome_get_bind {α : Type} (next : Variables → Eval α) (vars : Variables) :
    outcome (get >>= next) vars = outcome (next vars) vars := rfl

end Eval

namespace Exec

variable {α β : Type}

/-- The result of a step of execution and the machine after it, if the fuel suffices. -/
def outcome (action : Exec α) (machine : Machine) : Option (Except Failure α × Machine) :=
  action machine

/-- Returning a value takes no fuel and leaves the machine as it is. -/
@[simp] theorem outcome_pure (a : α) (machine : Machine) :
    outcome (pure a) machine = some (.ok a, machine) := rfl

/-- A failure leaves the machine as it is. -/
@[simp] theorem outcome_throw (failure : Failure) (machine : Machine) :
    outcome (throw failure : Exec α) machine = some (.error failure, machine) := rfl

/-- Binding a variable prints nothing. -/
@[simp] theorem outcome_store (name : String) (value : Value) (machine : Machine) :
    outcome (store name value) machine =
      some (.ok (), { machine with vars := machine.vars.insert name value }) := rfl

/-- Printing a line binds nothing. -/
@[simp] theorem outcome_print (line : String) (machine : Machine) :
    outcome (print line) machine =
      some (.ok (), { machine with printed := machine.printed.push line }) := rfl

/-- An evaluation in a run changes the variables only, and takes no fuel. -/
@[simp] theorem outcome_ofEval (action : Eval α) (machine : Machine) :
    outcome (ofEval action) machine =
      some ((Eval.outcome action machine.vars).1,
        { machine with vars := (Eval.outcome action machine.vars).2 }) := rfl

/-- A chain of two steps ends early if the fuel is used up or the first one fails. -/
theorem outcome_bind (action : Exec α) (next : α → Exec β) (machine : Machine) :
    outcome (action >>= next) machine =
      match outcome action machine with
      | none => none
      | some (.ok a, machine') => outcome (next a) machine'
      | some (.error failure, machine') => some (.error failure, machine') := by
  have hchain : outcome (action >>= next) machine =
      (outcome action machine).bind fun result =>
        ExceptT.bindCont (m := StateT Machine Option) next result.1 result.2 := rfl
  rw [hchain]
  rcases outcome action machine with _ | ⟨_ | a, machine'⟩ <;> rfl

/-- The second step does what the first one does, unless that runs out of fuel. -/
def Extends (action action' : Exec α) : Prop :=
  ∀ machine result, outcome action machine = some result → outcome action' machine = some result

/-- A step does what it does itself. -/
theorem Extends.refl (action : Exec α) : Extends action action := fun _ _ h => h

/-- Steps in a row do what others in a row do, if each does what the other one does. -/
theorem Extends.bind {action action' : Exec α} {next next' : α → Exec β}
    (h : Extends action action') (hnext : ∀ a, Extends (next a) (next' a)) :
    Extends (action >>= next) (action' >>= next') := by
  intro machine result hout
  rw [outcome_bind] at hout ⊢
  rcases hfirst : outcome action machine with _ | ⟨failure | a, machine'⟩
  · simp [hfirst] at hout
  · rw [hfirst] at hout
    rw [h _ _ hfirst]
    exact hout
  · rw [hfirst] at hout
    rw [h _ _ hfirst]
    exact hnext a _ _ hout

/-- Steps for all nodes do what others for all nodes do, if that holds of each node. -/
theorem Extends.forAll {step step' : Node → Exec Unit}
    (h : ∀ node, Extends (step node) (step' node)) (nodes : List Node) :
    Extends (Exec.forAll step nodes) (Exec.forAll step' nodes) := by
  induction nodes with
  | nil => exact .refl _
  | cons first rest ih => exact (h first).bind fun _ => ih

/-- Steps for two lists are those for the first one and then those for the second one. -/
theorem outcome_forAll_append (step : Node → Exec Unit) (nodes nodes' : List Node)
    (machine : Machine) :
    outcome (Exec.forAll step (nodes ++ nodes')) machine =
      outcome (do
        Exec.forAll step nodes
        Exec.forAll step nodes') machine := by
  induction nodes generalizing machine with
  | nil => rw [outcome_bind]; rfl
  | cons first rest ih =>
    rw [List.cons_append, Exec.forAll, Exec.forAll, outcome_bind, bind_assoc, outcome_bind]
    rcases outcome (step first) machine with _ | ⟨_ | _, machine'⟩
    · rfl
    · rfl
    · exact ih machine'

end Exec

/-- One more unit of fuel does not change a run that has come to its end. -/
theorem Node.extends_exec_succ (fuel : Nat) (room : Headroom) (node : Node) :
    Exec.Extends (node.exec fuel room) (node.exec (fuel + 1) room) := by
  induction fuel generalizing room node with
  | zero => intro machine result hout; cases hout
  | succ fuel ih =>
    rw [Node.exec, Node.exec]
    cases room.enter? with
    | none => exact .refl _
    | some inner =>
      cases node with
      | block statements line => exact .forAll (ih inner) statements
      | ifThen condition thenBranch line =>
        refine (Exec.Extends.refl _).bind fun value => ?_
        split_ifs
        · exact ih inner thenBranch
        · exact .refl _
      | ifElse condition thenBranch elseBranch line =>
        refine (Exec.Extends.refl _).bind fun value => ?_
        split_ifs
        · exact ih inner thenBranch
        · exact ih inner elseBranch
      | loop condition body line =>
        refine (Exec.Extends.refl _).bind fun value => ?_
        split_ifs
        · exact (ih inner body).bind fun _ => ih room _
        · exact .refl _
      | _ => exact .refl _

/-- More fuel does not change a run that has come to its end. -/
theorem Node.extends_execAll {fuel fuel' : Nat} (h : fuel ≤ fuel') (room : Headroom)
    (statements : List Node) :
    Exec.Extends (Node.execAll fuel room statements) (Node.execAll fuel' room statements) := by
  induction h with
  | refl => exact .refl _
  | step _ ih =>
    exact fun machine result hout =>
      Exec.Extends.forAll (Node.extends_exec_succ _ room) statements _ _ (ih _ _ hout)

/-- Two runs that come to their ends with the same fuel, with related results, and that more fuel
does not change: both go on forever, or both end. -/
theorem forever_or_enough {α β : Type} {rel : α → β → Prop} {run : Nat → Option α}
    {run' : Nat → Option β}
    (hmono : ∀ {fuel fuel' : Nat} {a : α}, fuel ≤ fuel' → run fuel = some a → run fuel' = some a)
    (hmono' : ∀ {fuel fuel' : Nat} {b : β}, fuel ≤ fuel' → run' fuel = some b → run' fuel' = some b)
    (hrel : ∀ fuel, Option.Rel rel (run fuel) (run' fuel)) :
    ((∀ fuel, run fuel = none) ∧ ∀ fuel, run' fuel = none) ∨
      ∃ (enough : Nat) (a : α) (b : β),
        (∀ fuel ≥ enough, run fuel = some a ∧ run' fuel = some b) ∧ rel a b := by
  by_cases hforever : ∀ fuel, run fuel = none
  · refine .inl ⟨hforever, fun fuel => ?_⟩
    have hfuel := hrel fuel
    rw [hforever fuel] at hfuel
    generalize run' fuel = out at hfuel ⊢
    cases hfuel
    rfl
  · obtain ⟨enough, hends⟩ := not_forall.mp hforever
    have hfuel := hrel enough
    generalize hrun : run enough = out at hfuel hends
    generalize hrun' : run' enough = out' at hfuel
    cases hfuel with
    | none => exact (hends rfl).elim
    | @some a b hab =>
      exact .inr ⟨enough, a, b, fun fuel hle => ⟨hmono hle hrun, hmono' hle hrun'⟩, hab⟩

section Append

variable {fuel : Nat} {room : Headroom} {nodes nodes' : List Node} {machine machine' : Machine}

/-- Statements behind those that have run without a failure. -/
theorem Node.outcome_execAll_append
    (h : Exec.outcome (Node.execAll fuel room nodes) machine = some (.ok (), machine')) :
    Exec.outcome (Node.execAll fuel room (nodes ++ nodes')) machine =
      Exec.outcome (Node.execAll fuel room nodes') machine' := by
  rw [Node.execAll] at h
  rw [Node.execAll, Exec.outcome_forAll_append, Exec.outcome_bind, h, Node.execAll]

/-- If statements run without a failure, then so do the first of them and then the others. -/
theorem Node.exists_of_outcome_execAll_append
    (h : Exec.outcome (Node.execAll fuel room (nodes ++ nodes')) machine =
      some (.ok (), machine')) :
    ∃ middle, Exec.outcome (Node.execAll fuel room nodes) machine = some (.ok (), middle) ∧
      Exec.outcome (Node.execAll fuel room nodes') middle = some (.ok (), machine') := by
  rw [Node.execAll, Exec.outcome_forAll_append, Exec.outcome_bind] at h
  rw [Node.execAll, Node.execAll]
  rcases hfirst : Exec.outcome (Exec.forAll (Node.exec fuel room) nodes) machine with
    _ | ⟨failure | _, middle⟩
  · simp [hfirst] at h
  · simp [hfirst] at h
  · rw [hfirst] at h
    exact ⟨middle, rfl, h⟩

end Append

section Alike

variable {lines : SourceLine → SourceLine → Prop} {files : Option String → Option String → Prop}

/-- Failures for the same reason, on corresponding lines. -/
structure Failure.Alike (lines : SourceLine → SourceLine → Prop) (failure failure' : Failure) :
    Prop where
  fault_eq : failure'.fault = failure.fault
  line : lines failure.line failure'.line

/-- Corresponding failures say the same about corresponding lines. -/
theorem Failure.Alike.report {failure failure' : Failure} (h : failure.Alike lines failure')
    (file : Option String) : (failure.report file).Alike lines (failure'.report file) := by
  refine ⟨?_, h.line, rfl⟩
  rw [Failure.report, Failure.report, h.fault_eq]

/-- The same value, or corresponding failures, with the same variables. -/
inductive Eval.OutcomeAlike (lines : SourceLine → SourceLine → Prop) {α : Type} :
    Except Failure α × Variables → Except Failure α × Variables → Prop where
  | ok (a : α) (vars : Variables) : OutcomeAlike lines (.ok a, vars) (.ok a, vars)
  | error {failure failure' : Failure} (vars : Variables) (h : failure.Alike lines failure') :
      OutcomeAlike lines (.error failure, vars) (.error failure', vars)

/-- Evaluations in a row come out alike, if the first ones do and the others do on any variables. -/
theorem Eval.OutcomeAlike.bind {α β : Type} {action action' : Eval α} {next next' : α → Eval β}
    {vars : Variables} (h : OutcomeAlike lines (outcome action vars) (outcome action' vars))
    (hnext : ∀ a vars, OutcomeAlike lines (outcome (next a) vars) (outcome (next' a) vars)) :
    OutcomeAlike lines (outcome (action >>= next) vars) (outcome (action' >>= next') vars) := by
  rw [outcome_bind, outcome_bind]
  revert h
  generalize outcome action vars = result
  generalize outcome action' vars = result'
  rintro (⟨a, vars'⟩ | ⟨vars', hfailure⟩)
  · exact hnext a vars'
  · exact .error vars' hfailure

/-- Corresponding nodes mean the same where they mean nothing. -/
theorem Node.Alike.misplaced {node node' : Node} (h : node.Alike lines files node') :
    node.misplaced.Alike lines node'.misplaced := by
  cases h <;> refine ⟨rfl, ?_⟩ <;> first | assumption | exact SyntaxError.Alike.line ‹_›

/-- Corresponding expressions have the same value or fail for the same reason. -/
theorem Node.Alike.eval (hnone : lines none none) {node node' : Node}
    (h : node.Alike lines files node') (room : Headroom) (vars : Variables) :
    Eval.OutcomeAlike lines (Eval.outcome (node.eval room) vars)
      (Eval.outcome (node'.eval room) vars) := by
  have hmisplaced := h.misplaced
  induction h generalizing room vars with
  | literal value hline =>
    rw [Node.eval, Node.eval]
    cases room.enter? with
    | none => exact .error vars ⟨rfl, hnone⟩
    | some inner => exact .ok value vars
  | reference name hline =>
    rw [Node.eval, Node.eval]
    cases room.enter? with
    | none => exact .error vars ⟨rfl, hnone⟩
    | some inner =>
      refine Eval.OutcomeAlike.bind (.ok vars vars) fun found vars' => ?_
      cases found[name]? with
      | none => exact .error vars' ⟨rfl, hline⟩
      | some value => exact .ok value vars'
  | assign name hvalue hline ih =>
    rw [Node.eval, Node.eval]
    cases room.enter? with
    | none => exact .error vars ⟨rfl, hnone⟩
    | some inner =>
      refine Eval.OutcomeAlike.bind (ih inner vars hvalue.misplaced) fun value vars' => ?_
      exact .ok value _
  | binary op hlhs hrhs hline ihlhs ihrhs =>
    rw [Node.eval, Node.eval]
    cases room.enter? with
    | none => exact .error vars ⟨rfl, hnone⟩
    | some inner =>
      refine Eval.OutcomeAlike.bind (ihlhs inner vars hlhs.misplaced) fun left vars' => ?_
      refine Eval.OutcomeAlike.bind (ihrhs inner vars' hrhs.misplaced) fun right vars'' => ?_
      cases op.apply left right with
      | error fault => exact .error vars'' ⟨rfl, hline⟩
      | ok value => exact .ok value vars''
  | _ =>
    rw [Node.eval, Node.eval]
    cases room.enter? with
    | none => exact .error vars ⟨rfl, hnone⟩
    | some inner => exact .error vars hmisplaced

/-- Machines with the same variables, the second of which had printed some lines before. -/
structure Machine.Alike (before : List String) (machine machine' : Machine) : Prop where
  vars_eq : machine'.vars = machine.vars
  printed_eq : machine'.printed.toList = before ++ machine.printed.toList

/-- Both run out of fuel, or both succeed with the same result, or both fail for the same reason,
with corresponding machines. -/
inductive Exec.OutcomeAlike (lines : SourceLine → SourceLine → Prop) (before : List String)
    {α : Type} :
    Option (Except Failure α × Machine) → Option (Except Failure α × Machine) → Prop where
  | outOfFuel : OutcomeAlike lines before none none
  | ok (a : α) {machine machine' : Machine} (h : machine.Alike before machine') :
      OutcomeAlike lines before (some (.ok a, machine)) (some (.ok a, machine'))
  | error {failure failure' : Failure} {machine machine' : Machine}
      (hfailure : failure.Alike lines failure') (h : machine.Alike before machine') :
      OutcomeAlike lines before (some (.error failure, machine)) (some (.error failure', machine'))

/-- The steps do the same on corresponding machines. -/
def Exec.Alike (lines : SourceLine → SourceLine → Prop) (before : List String) {α : Type}
    (action action' : Exec α) : Prop :=
  ∀ machine machine' : Machine, machine.Alike before machine' →
    OutcomeAlike lines before (outcome action machine) (outcome action' machine')

namespace Exec

variable {before : List String} {α β : Type}

/-- Returning a value does the same on corresponding machines. -/
theorem alike_pure (a : α) : Alike lines before (pure a) (pure a) := fun _ _ h => .ok a h

/-- Corresponding failures are alike. -/
theorem alike_throw {failure failure' : Failure} (h : failure.Alike lines failure') :
    Alike lines before (throw failure : Exec α) (throw failure') := fun _ _ hmachine =>
  .error h hmachine

/-- Steps in a row do the same on corresponding machines, if each does. -/
theorem Alike.bind {action action' : Exec α} {next next' : α → Exec β}
    (h : Alike lines before action action')
    (hnext : ∀ a, Alike lines before (next a) (next' a)) :
    Alike lines before (action >>= next) (action' >>= next') := by
  intro machine machine' hmachine
  rw [outcome_bind, outcome_bind]
  have hfirst := h machine machine' hmachine
  revert hfirst
  generalize outcome action machine = result
  generalize outcome action' machine' = result'
  rintro (_ | ⟨a, hmachine'⟩ | ⟨hfailure, hmachine'⟩)
  · exact .outOfFuel
  · exact hnext a _ _ hmachine'
  · exact .error hfailure hmachine'

/-- Binding a variable does the same on corresponding machines. -/
theorem alike_store (name : String) (value : Value) :
    Alike lines before (store name value) (store name value) := by
  intro machine machine' h
  rw [outcome_store, outcome_store, h.vars_eq]
  exact .ok () ⟨rfl, h.printed_eq⟩

/-- Printing a line does the same on corresponding machines: it comes behind what was printed
before. -/
theorem alike_print (line : String) : Alike lines before (print line) (print line) := by
  intro machine machine' h
  rw [outcome_print, outcome_print]
  exact .ok () ⟨h.vars_eq, by simp [h.printed_eq]⟩

/-- Corresponding expressions do the same on corresponding machines. -/
theorem alike_ofEval (hnone : lines none none) {node node' : Node}
    (h : node.Alike lines files node') (room : Headroom) :
    Alike lines before (ofEval (node.eval room)) (ofEval (node'.eval room)) := by
  intro machine machine' hmachine
  rw [outcome_ofEval, outcome_ofEval, hmachine.vars_eq]
  have heval := h.eval hnone room machine.vars
  revert heval
  generalize Eval.outcome (node.eval room) machine.vars = result
  generalize Eval.outcome (node'.eval room) machine.vars = result'
  rintro (⟨a, vars⟩ | ⟨vars, hfailure⟩)
  · exact .ok a ⟨rfl, hmachine.printed_eq⟩
  · exact .error hfailure ⟨rfl, hmachine.printed_eq⟩

/-- Steps for corresponding nodes do the same, one node after the other. -/
theorem alike_forAll {step : Node → Exec Unit}
    (h : ∀ {node node' : Node}, node.Alike lines files node' →
      Alike lines before (step node) (step node'))
    {nodes nodes' : List Node} (hnodes : List.Forall₂ (Node.Alike lines files) nodes nodes') :
    Alike lines before (forAll step nodes) (forAll step nodes') := by
  induction hnodes with
  | nil => exact alike_pure ()
  | cons hnode _ ih => exact (h hnode).bind fun _ => ih

end Exec

/-- Corresponding statements do the same on corresponding machines. -/
theorem Node.Alike.exec (hnone : lines none none) {before : List String} (fuel : Nat)
    (room : Headroom) {node node' : Node} (h : node.Alike lines files node') :
    Exec.Alike lines before (node.exec fuel room) (node'.exec fuel room) := by
  induction fuel generalizing room node node' with
  | zero => exact fun _ _ _ => .outOfFuel
  | succ fuel ih =>
    have hmisplaced := h.misplaced
    -- A loop goes on as itself with less fuel, in the room in which it was entered.
    have hloop := ih room h
    rw [Node.exec, Node.exec]
    cases room.enter? with
    | none => exact Exec.alike_throw ⟨rfl, hnone⟩
    | some inner =>
      cases h with
      | evaluate hvalue _ =>
        exact (Exec.alike_ofEval hnone hvalue inner).bind fun _ => Exec.alike_pure ()
      | print hvalue _ =>
        exact (Exec.alike_ofEval hnone hvalue inner).bind fun value => Exec.alike_print _
      | declare name _ => exact Exec.alike_store name .null
      | define name hinitial _ =>
        exact (Exec.alike_ofEval hnone hinitial inner).bind fun value => Exec.alike_store name value
      | block hlength hstatements _ =>
        exact Exec.alike_forAll (ih inner) (List.forall₂_iff_get.mpr ⟨hlength, hstatements⟩)
      | ifThen hcondition hthen _ =>
        refine (Exec.alike_ofEval hnone hcondition inner).bind fun value => ?_
        split_ifs
        · exact ih inner hthen
        · exact Exec.alike_pure ()
      | ifElse hcondition hthen helse _ =>
        refine (Exec.alike_ofEval hnone hcondition inner).bind fun value => ?_
        split_ifs
        · exact ih inner hthen
        · exact ih inner helse
      | loop hcondition hbody _ =>
        refine (Exec.alike_ofEval hnone hcondition inner).bind fun value => ?_
        split_ifs
        · exact (ih inner hbody).bind fun _ => hloop
        · exact Exec.alike_pure ()
      | skipped _ _ => exact Exec.alike_pure ()
      | _ => exact Exec.alike_throw hmisplaced

/-- Corresponding lists of statements do the same on corresponding machines. -/
theorem alike_execAll (hnone : lines none none) {before : List String} (fuel : Nat)
    (room : Headroom) {nodes nodes' : List Node}
    (h : List.Forall₂ (Node.Alike lines files) nodes nodes') :
    Exec.Alike lines before (Node.execAll fuel room nodes) (Node.execAll fuel room nodes') :=
  Exec.alike_forAll (Node.Alike.exec hnone fuel room) h

end Alike

end ScriptKit
