import ScriptKit.Proofs.Contracts
import ScriptKit.Proofs.DepthLimit

/-!
# What statements read and what they bind

All variables of a program live in one place, and still a run has to do with few of them: with those
that its statements name. On variables that agree on these names the statements run alike, whatever
else is bound. A run leaves all other names as they are, it unbinds nothing, and it binds nothing
new but what the statements assign or declare. This is true of a run that fails in the middle of an
expression, and at every moment of a run that never ends.

`Node.uses` lists the names in a tree with what becomes of each. The one run is settled by an
invariant that binding such names keeps, the comparison of two runs by a relation between their
variables. Both go through evaluation by induction on the tree and through execution by induction on
the fuel.
-/

set_option autoImplicit false

namespace ScriptKit

/-! ## The names in a tree -/

/-- What becomes of a name: it is read, it is assigned to, or it is declared. -/
inductive Use where
  | read
  | assigned
  | declared
deriving DecidableEq, Repr

/-- The names in a list of uses. -/
def Use.names (uses : List (Use × String)) : Set String := {name | ∃ use, (use, name) ∈ uses}

namespace Node

mutual

/-- The names in a tree, each with what becomes of it there. -/
@[simp] def uses : Node → List (Use × String)
  | literal .. | skipped .. | unknown .. => []
  | reference name _ => [(.read, name)]
  | binary _ lhs rhs _ => lhs.uses ++ rhs.uses
  | assign name value _ => (.assigned, name) :: value.uses
  | evaluate expression _ => expression.uses
  | declare name _ => [(.declared, name)]
  | define name initial _ => (.declared, name) :: initial.uses
  | print expression _ => expression.uses
  | ifThen condition thenBranch _ => condition.uses ++ thenBranch.uses
  | ifElse condition thenBranch elseBranch _ =>
    condition.uses ++ (thenBranch.uses ++ elseBranch.uses)
  | loop condition body _ => condition.uses ++ body.uses
  | block statements _ => usesOf statements

/-- The names in several trees. -/
@[simp] def usesOf : List Node → List (Use × String)
  | [] => []
  | first :: rest => first.uses ++ usesOf rest

end

/-- The uses in trees are among others if those in each tree are. -/
theorem usesOf_subset_iff {nodes : List Node} {uses : List (Use × String)} :
    usesOf nodes ⊆ uses ↔ ∀ node ∈ nodes, node.uses ⊆ uses := by
  induction nodes with
  | nil => simp
  | cons first rest ih => simp [ih]

/-- The names that occur in statements, to be read, assigned to or declared. -/
def names (statements : List Node) : Set String := Use.names (usesOf statements)

/-- The names that statements assign to or declare. -/
def targets (statements : List Node) : Set String :=
  {name | (.assigned, name) ∈ usesOf statements ∨ (.declared, name) ∈ usesOf statements}

/-- What is assigned to or declared occurs. -/
theorem targets_subset_names (statements : List Node) : targets statements ⊆ names statements := by
  rintro name (hassigned | hdeclared)
  · exact ⟨_, hassigned⟩
  · exact ⟨_, hdeclared⟩

end Node

/-! ## One run: what it leaves alone -/

/-- Binding a name that is assigned to or declared keeps what holds of the variables. -/
def KeptByBinding (uses : List (Use × String)) (inv : Variables → Prop) : Prop :=
  ∀ (use : Use) (name : String) (value : Value) (vars : Variables), (use, name) ∈ uses →
    use ≠ .read → inv vars → inv (vars.insert name value)

section OneRun

variable {uses : List (Use × String)} {inv : Variables → Prop}

/-- What binding the names of an expression keeps is kept by its evaluation. -/
theorem Node.keeps_eval_of_uses (hinv : KeptByBinding uses inv) {node : Node}
    (huses : node.uses ⊆ uses) (room : Headroom) :
    Eval.Keeps inv (fun _ => True) (fun _ => True) (node.eval room) := by
  induction room, node using Node.eval.induct with
  | case1 node room hnone =>
    rw [Node.eval, hnone]
    exact Eval.keeps_throw trivial
  | case2 room inner henter value line =>
    rw [Node.eval, henter]
    exact Eval.keeps_pure trivial
  | case3 room inner henter name line =>
    rw [Node.eval, henter]
    refine Eval.keeps_get_bind fun vars hvars => ?_
    cases vars[name]? with
    | none => exact meets_error hvars trivial
    | some value => exact meets_ok hvars trivial
  | case4 room inner henter name expression line ih =>
    rw [Node.uses, List.cons_subset] at huses
    rw [Node.eval, henter]
    refine (ih huses.2).bind fun value _ => ?_
    apply Eval.keeps_modify_bind
    · intro vars hvars
      exact hinv .assigned name value vars huses.1 (by decide) hvars
    · exact Eval.keeps_pure trivial
  | case5 room inner henter op lhs rhs line ihlhs ihrhs =>
    rw [Node.uses, List.append_subset] at huses
    rw [Node.eval, henter]
    refine (ihlhs huses.1).bind fun left _ => (ihrhs huses.2).bind fun right _ => ?_
    cases op.apply left right with
    | error fault => exact Eval.keeps_throw trivial
    | ok value => exact Eval.keeps_pure trivial
  | case6 room inner henter other hliteral hreference hassign hbinary =>
    rw [Node.eval, henter]
    cases other with
    | literal value line => exact (hliteral value line rfl).elim
    | reference name line => exact (hreference name line rfl).elim
    | assign name value line => exact (hassign name value line rfl).elim
    | binary op lhs rhs line => exact (hbinary op lhs rhs line rfl).elim
    | _ => exact Eval.keeps_throw trivial

namespace Watch

variable {α β : Type}

/-- What holds of the variables is seen to hold after the step, also if the fuel was used up. -/
def Keeps (inv : Variables → Prop) (watch : Watch α) : Prop :=
  ∀ sight : Sight, inv sight.machine.vars → inv (outcome watch sight).2.machine.vars

/-- Returning a value keeps what holds of the variables. -/
theorem keeps_pure (a : α) : Keeps inv (pure a) := fun _ hvars => hvars

/-- Halting keeps what holds of the variables. -/
theorem keeps_throw (halt : Halt) : Keeps inv (throw halt : Watch α) := fun _ hvars => hvars

/-- A watched step of execution keeps what the step keeps, also where its fuel is used up. -/
theorem keeps_ofExec {action : Exec α}
    (h : Exec.Keeps inv (fun _ => True) (fun _ => True) action) : Keeps inv (ofExec action) := by
  intro sight hvars
  unfold outcome ofExec
  rcases hout : action sight.machine with _ | ⟨failure | a, machine⟩
  · exact hvars
  · exact (h sight.machine _ _ hvars hout).inv_vars
  · exact (h sight.machine _ _ hvars hout).inv_vars

/-- Watched steps in a row keep what each of them keeps. -/
theorem Keeps.bind {watch : Watch α} {next : α → Watch β} (h : Keeps inv watch)
    (hnext : ∀ a, Keeps inv (next a)) : Keeps inv (watch >>= next) := by
  intro sight hvars
  have hfirst := h sight hvars
  rcases hout : outcome watch sight with ⟨halt | a, sight'⟩
  · rw [outcome_bind_of_error hout]
    rwa [hout] at hfirst
  · rw [outcome_bind_of_ok hout]
    rw [hout] at hfirst
    exact hnext a sight' hfirst

/-- Seeing a statement begun does not touch the variables. -/
theorem Keeps.note {watch : Watch α} (h : Keeps inv watch) (place : Place) :
    Keeps inv (note place >>= fun _ => watch) := fun sight hvars =>
  h { sight with begun := place :: sight.begun } hvars

/-- Watched steps for all nodes keep what the step for each node keeps. -/
theorem keeps_forAll {watch : Nat → Node → Watch Unit} {nodes : List Node}
    (h : ∀ node ∈ nodes, ∀ number, Keeps inv (watch number node)) (number : Nat) :
    Keeps inv (forAll watch number nodes) := by
  induction nodes generalizing number with
  | nil => exact keeps_pure ()
  | cons first rest ih =>
    refine (h first List.mem_cons_self number).bind fun _ => ih ?_ (number + 1)
    intro node hmem
    exact h node (List.mem_cons_of_mem first hmem)

end Watch

/-- What binding the names of a statement keeps is seen to hold all along its run. -/
theorem Node.keeps_watch_of_uses (hinv : KeptByBinding uses inv) (fuel : Nat) (room : Headroom)
    (place : Place) {node : Node} (huses : node.uses ⊆ uses) :
    (node.watch fuel room place).Keeps inv := by
  induction fuel generalizing room place node with
  | zero => exact Watch.keeps_throw _
  | succ fuel ih =>
    -- A loop goes on as itself with less fuel, in the room in which it was entered.
    have hloop := ih room place huses
    rw [Node.watch]
    apply Watch.Keeps.note
    cases room.enter? with
    | none => exact Watch.keeps_throw _
    | some inner =>
      have heval (expression : Node) (h : expression.uses ⊆ uses) :=
        Watch.keeps_ofExec (Exec.keeps_ofEval (Node.keeps_eval_of_uses hinv h inner))
      have hstore {name : String} (value : Value) (h : (.declared, name) ∈ uses) :
          (Watch.ofExec (.store name value)).Keeps inv :=
        Watch.keeps_ofExec
          (Exec.keeps_store fun vars => hinv .declared name value vars h (by decide))
      cases node with
      | evaluate expression line => exact (heval expression huses).bind fun _ => Watch.keeps_pure ()
      | print expression line =>
        exact (heval expression huses).bind fun value => Watch.keeps_ofExec (Exec.keeps_print _)
      | declare name line => exact hstore .null (huses List.mem_cons_self)
      | define name initial line =>
        rw [Node.uses, List.cons_subset] at huses
        exact (heval initial huses.2).bind fun value => hstore value huses.1
      | block statements line =>
        rw [Node.uses, usesOf_subset_iff] at huses
        exact Watch.keeps_forAll (fun node hmem _ => ih inner _ (huses node hmem)) 0
      | ifThen condition thenBranch line =>
        rw [Node.uses, List.append_subset] at huses
        refine (heval condition huses.1).bind fun value => ?_
        split_ifs
        · exact ih inner _ huses.2
        · exact Watch.keeps_pure ()
      | ifElse condition thenBranch elseBranch line =>
        rw [Node.uses, List.append_subset, List.append_subset] at huses
        refine (heval condition huses.1).bind fun value => ?_
        split_ifs
        · exact ih inner _ huses.2.1
        · exact ih inner _ huses.2.2
      | loop condition body line =>
        rw [Node.uses, List.append_subset] at huses
        refine (heval condition huses.1).bind fun value => ?_
        split_ifs
        · exact (ih inner _ huses.2).bind fun _ => hloop
        · exact Watch.keeps_pure ()
      | skipped message line => exact Watch.keeps_pure ()
      | _ => exact Watch.keeps_throw _

end OneRun

/-- The variables of a run of the statements on a machine, as far as the fuel goes. -/
def Node.varsAll (fuel : Nat) (room : Headroom) (statements : List Node) (machine : Machine) :
    Variables :=
  (Watch.outcome (Node.watchAll fuel room statements) ⟨machine, []⟩).2.machine.vars

/-- The variables that a run leaves behind are those that were seen last. -/
theorem Node.varsAll_of_outcome {fuel : Nat} {room : Headroom} {statements : List Node}
    {machine machine' : Machine} {result : Except Failure Unit}
    (h : Exec.outcome (Node.execAll fuel room statements) machine = some (result, machine')) :
    Node.varsAll fuel room statements machine = machine'.vars := by
  unfold Node.varsAll
  rw [Node.machine_watchAll_of_outcome h]

/-- The second variables come from the first ones by statements: names that do not occur are as they
were, what was bound is bound, and what is new was assigned to or declared. -/
structure Variables.FramedBy (statements : List Node) (vars vars' : Variables) : Prop where
  outside : ∀ name ∉ Node.names statements, vars'[name]? = vars[name]?
  bound : ∀ name ∈ vars, name ∈ vars'
  new : ∀ name ∈ vars', name ∉ vars → name ∈ Node.targets statements

/-- To bind one more name of the statements keeps to the frame. -/
theorem Variables.framedBy_keptByBinding (statements : List Node) (vars : Variables) :
    KeptByBinding (Node.usesOf statements) (vars.FramedBy statements) := by
  intro use name value vars' huse hread hframed
  have htarget : name ∈ Node.targets statements := by
    cases use with
    | read => exact (hread rfl).elim
    | assigned => exact .inl huse
    | declared => exact .inr huse
  refine ⟨fun other hother => ?_, fun other hother => ?_, fun other hother hnew => ?_⟩
  · have hne : name ≠ other := fun heq => hother (heq ▸ Node.targets_subset_names _ htarget)
    rw [Std.TreeMap.getElem?_insert, if_neg (by simpa using hne)]
    exact hframed.outside other hother
  · rw [Std.TreeMap.mem_insert]
    exact .inr (hframed.bound other hother)
  · rw [Std.TreeMap.mem_insert, compare_eq_iff_eq] at hother
    rcases hother with rfl | hother
    · exact htarget
    · exact hframed.new other hother hnew

/-- At every moment of a run, the variables are framed by the statements. -/
theorem Node.framedBy_varsAll (fuel : Nat) (room : Headroom) (statements : List Node)
    (machine : Machine) :
    machine.vars.FramedBy statements (Node.varsAll fuel room statements machine) := by
  have hkept := Variables.framedBy_keptByBinding statements machine.vars
  have huses := Node.usesOf_subset_iff.mp (List.Subset.refl (Node.usesOf statements))
  have hstart : machine.vars.FramedBy statements machine.vars :=
    ⟨fun _ _ => rfl, fun _ h => h, fun _ h hnew => (hnew h).elim⟩
  exact Watch.keeps_forAll
    (fun node hmem _ => Node.keeps_watch_of_uses hkept fuel room _ (huses node hmem)) 0
    ⟨machine, []⟩ hstart

/-! ## Two runs: what they depend on -/

/-- The variables agree on the names: each is bound to the same value in both, or in neither. -/
def Variables.AgreeOn (names : Set String) (vars vars' : Variables) : Prop :=
  ∀ name ∈ names, vars'[name]? = vars[name]?

/-- The same binding keeps variables in agreement. -/
theorem Variables.AgreeOn.insert {names : Set String} {vars vars' : Variables}
    (h : vars.AgreeOn names vars') (name : String) (value : Value) :
    Variables.AgreeOn names (vars.insert name value) (vars'.insert name value) := by
  intro other hother
  rw [Std.TreeMap.getElem?_insert, Std.TreeMap.getElem?_insert, h other hother]

section TwoRuns

variable {uses : List (Use × String)} {α β : Type}

/-- The same value or failure, with variables that agree on the names. -/
inductive Eval.Agree (names : Set String) :
    Except Failure α × Variables → Except Failure α × Variables → Prop where
  | intro (result : Except Failure α) {vars vars' : Variables} (h : vars.AgreeOn names vars') :
      Agree names (result, vars) (result, vars')

/-- The evaluation depends on the names only. -/
def Eval.DependsOn (names : Set String) (action : Eval α) : Prop :=
  ∀ vars vars' : Variables, vars.AgreeOn names vars' →
    Agree names (outcome action vars) (outcome action vars')

section Laws

variable {names : Set String}

/-- Returning a value depends on no name. -/
theorem Eval.dependsOn_pure (a : α) : DependsOn names (pure a : Eval α) := fun _ _ hagree =>
  .intro _ hagree

/-- Failing depends on no name. -/
theorem Eval.dependsOn_throw (failure : Failure) : DependsOn names (throw failure : Eval α) :=
  fun _ _ hagree => .intro _ hagree

/-- Evaluations in a row depend on the names on which each of them depends. -/
theorem Eval.DependsOn.bind {action : Eval α} {next : α → Eval β} (h : DependsOn names action)
    (hnext : ∀ a, DependsOn names (next a)) : DependsOn names (action >>= next) := by
  intro vars vars' hagree
  have hfirst := h vars vars' hagree
  rw [outcome_bind, outcome_bind]
  generalize outcome action vars = first at hfirst
  generalize outcome action vars' = first' at hfirst
  cases hfirst with
  | intro result hagree' =>
    cases result with
    | error failure => exact .intro _ hagree'
    | ok a => exact hnext a _ _ hagree'

end Laws

/-- The value of an expression depends on the names in it. -/
theorem Node.dependsOn_eval {node : Node} (huses : node.uses ⊆ uses) (room : Headroom) :
    Eval.DependsOn (Use.names uses) (node.eval room) := by
  induction room, node using Node.eval.induct with
  | case1 node room hnone =>
    rw [Node.eval, hnone]
    exact Eval.dependsOn_throw _
  | case2 room inner henter value line =>
    rw [Node.eval, henter]
    exact Eval.dependsOn_pure value
  | case3 room inner henter name line =>
    rw [Node.eval, henter]
    intro vars vars' hagree
    have hsame := hagree name ⟨.read, huses List.mem_cons_self⟩
    simp only [Eval.outcome_get_bind, hsame]
    cases vars[name]? with
    | none => exact .intro _ hagree
    | some value => exact .intro _ hagree
  | case4 room inner henter name expression line ih =>
    rw [Node.uses, List.cons_subset] at huses
    rw [Node.eval, henter]
    refine (ih huses.2).bind fun value => ?_
    exact fun _ _ hagree => .intro _ (hagree.insert name value)
  | case5 room inner henter op lhs rhs line ihlhs ihrhs =>
    rw [Node.uses, List.append_subset] at huses
    rw [Node.eval, henter]
    refine (ihlhs huses.1).bind fun left => (ihrhs huses.2).bind fun right => ?_
    cases op.apply left right with
    | error fault => exact Eval.dependsOn_throw _
    | ok value => exact Eval.dependsOn_pure value
  | case6 room inner henter other hliteral hreference hassign hbinary =>
    rw [Node.eval, henter]
    cases other with
    | literal value line => exact (hliteral value line rfl).elim
    | reference name line => exact (hreference name line rfl).elim
    | assign name value line => exact (hassign name value line rfl).elim
    | binary op lhs rhs line => exact (hbinary op lhs rhs line rfl).elim
    | _ => exact Eval.dependsOn_throw _

/-- The same result with the same lines printed, and variables that agree on the names. -/
inductive Exec.Agree (names : Set String) :
    Except Failure α × Machine → Except Failure α × Machine → Prop where
  | intro (result : Except Failure α) {vars vars' : Variables} (printed : Array String)
      (h : vars.AgreeOn names vars') :
      Agree names (result, ⟨vars, printed⟩) (result, ⟨vars', printed⟩)

/-- The step of execution depends on the names only: it runs out of fuel in both cases, or in
neither. -/
def Exec.DependsOn (names : Set String) (action : Exec α) : Prop :=
  ∀ (vars vars' : Variables) (printed : Array String), vars.AgreeOn names vars' →
    Option.Rel (Agree names) (outcome action ⟨vars, printed⟩) (outcome action ⟨vars', printed⟩)

namespace Exec

variable {names : Set String}

/-- Returning a value depends on no name. -/
theorem dependsOn_pure (a : α) : DependsOn names (pure a : Exec α) := fun _ _ printed hagree =>
  .some (.intro _ printed hagree)

/-- Failing depends on no name. -/
theorem dependsOn_throw (failure : Failure) : DependsOn names (throw failure : Exec α) :=
  fun _ _ printed hagree => .some (.intro _ printed hagree)

/-- Binding a variable depends on no name: the variables agree on it afterwards. -/
theorem dependsOn_store (name : String) (value : Value) : DependsOn names (store name value) :=
  fun _ _ printed hagree => .some (.intro _ printed (hagree.insert name value))

/-- Printing a line depends on no name. -/
theorem dependsOn_print (line : String) : DependsOn names (print line) := fun _ _ printed hagree =>
  .some (.intro _ (printed.push line) hagree)

/-- A run depends on the names on which the evaluations in it depend. -/
theorem dependsOn_ofEval {action : Eval α} (h : Eval.DependsOn names action) :
    DependsOn names (ofEval action) := by
  intro vars vars' printed hagree
  have heval := h vars vars' hagree
  rw [outcome_ofEval, outcome_ofEval]
  generalize Eval.outcome action vars = first at heval
  generalize Eval.outcome action vars' = first' at heval
  cases heval with
  | intro result hagree' => exact .some (.intro result printed hagree')

/-- Steps in a row depend on the names on which each of them depends. -/
theorem DependsOn.bind {action : Exec α} {next : α → Exec β} (h : DependsOn names action)
    (hnext : ∀ a, DependsOn names (next a)) : DependsOn names (action >>= next) := by
  intro vars vars' printed hagree
  have hfirst := h vars vars' printed hagree
  rw [outcome_bind, outcome_bind]
  generalize outcome action ⟨vars, printed⟩ = first at hfirst
  generalize outcome action ⟨vars', printed⟩ = first' at hfirst
  cases hfirst with
  | none => exact .none
  | some hends =>
    obtain ⟨failure | a, printed', hagree'⟩ := hends
    · exact .some (.intro _ printed' hagree')
    · exact hnext a _ _ printed' hagree'

/-- Steps for all nodes depend on the names on which the step for each node depends. -/
theorem dependsOn_forAll {step : Node → Exec Unit} {nodes : List Node}
    (h : ∀ node ∈ nodes, DependsOn names (step node)) : DependsOn names (forAll step nodes) := by
  induction nodes with
  | nil => exact dependsOn_pure ()
  | cons first rest ih =>
    refine (h first List.mem_cons_self).bind fun _ => ih ?_
    intro node hmem
    exact h node (List.mem_cons_of_mem first hmem)

end Exec

/-- The run of a statement depends on the names in it. -/
theorem Node.dependsOn_exec (fuel : Nat) (room : Headroom) {node : Node}
    (huses : node.uses ⊆ uses) : Exec.DependsOn (Use.names uses) (node.exec fuel room) := by
  induction fuel generalizing room node with
  | zero => exact fun _ _ _ _ => .none
  | succ fuel ih =>
    -- A loop goes on as itself with less fuel, in the room in which it was entered.
    have hloop := ih room huses
    rw [Node.exec]
    cases room.enter? with
    | none => exact Exec.dependsOn_throw _
    | some inner =>
      have heval (expression : Node) (h : expression.uses ⊆ uses) :=
        Exec.dependsOn_ofEval (Node.dependsOn_eval h inner)
      cases node with
      | evaluate expression line =>
        exact (heval expression huses).bind fun _ => Exec.dependsOn_pure ()
      | print expression line =>
        exact (heval expression huses).bind fun value => Exec.dependsOn_print _
      | declare name line => exact Exec.dependsOn_store name .null
      | define name initial line =>
        rw [Node.uses, List.cons_subset] at huses
        exact (heval initial huses.2).bind fun value => Exec.dependsOn_store name value
      | block statements line =>
        rw [Node.uses, usesOf_subset_iff] at huses
        exact Exec.dependsOn_forAll fun node hmem => ih inner (huses node hmem)
      | ifThen condition thenBranch line =>
        rw [Node.uses, List.append_subset] at huses
        refine (heval condition huses.1).bind fun value => ?_
        split_ifs
        · exact ih inner huses.2
        · exact Exec.dependsOn_pure ()
      | ifElse condition thenBranch elseBranch line =>
        rw [Node.uses, List.append_subset, List.append_subset] at huses
        refine (heval condition huses.1).bind fun value => ?_
        split_ifs
        · exact ih inner huses.2.1
        · exact ih inner huses.2.2
      | loop condition body line =>
        rw [Node.uses, List.append_subset] at huses
        refine (heval condition huses.1).bind fun value => ?_
        split_ifs
        · exact (ih inner huses.2).bind fun _ => hloop
        · exact Exec.dependsOn_pure ()
      | skipped message line => exact Exec.dependsOn_pure ()
      | _ => exact Exec.dependsOn_throw _

end TwoRuns

/-- The run of statements depends on the names in them. -/
theorem Node.dependsOn_execAll (fuel : Nat) (room : Headroom) (statements : List Node) :
    Exec.DependsOn (Node.names statements) (Node.execAll fuel room statements) := by
  have huses := Node.usesOf_subset_iff.mp (List.Subset.refl (Node.usesOf statements))
  exact Exec.dependsOn_forAll fun node hmem => Node.dependsOn_exec fuel room (huses node hmem)

/-- From variables that agree on the names in the statements, both runs go on forever, or both end
alike, and the variables still agree. -/
theorem Node.outcome_execAll_of_agreeOn {statements : List Node} {vars vars' : Variables}
    (h : vars.AgreeOn (Node.names statements) vars') (room : Headroom) (printed : Array String) :
    ((∀ fuel, Exec.outcome (Node.execAll fuel room statements) ⟨vars, printed⟩ = none) ∧
      ∀ fuel, Exec.outcome (Node.execAll fuel room statements) ⟨vars', printed⟩ = none) ∨
    ∃ (enough : Nat) (result : Except Failure Unit) (last last' : Machine),
      (∀ fuel ≥ enough,
        Exec.outcome (Node.execAll fuel room statements) ⟨vars, printed⟩ = some (result, last) ∧
        Exec.outcome (Node.execAll fuel room statements) ⟨vars', printed⟩ = some (result, last')) ∧
      last'.printed = last.printed ∧ last.vars.AgreeOn (Node.names statements) last'.vars := by
  have hmono (vars : Variables) {fuel fuel' : Nat} {out : Except Failure Unit × Machine}
      (hle : fuel ≤ fuel') := Node.extends_execAll hle room statements ⟨vars, printed⟩ out
  have hagree (fuel : Nat) := Node.dependsOn_execAll fuel room statements vars vars' printed h
  obtain hforever | ⟨enough, last, last', hruns, hends⟩ :=
    forever_or_enough (hmono vars) (hmono vars') hagree
  · exact .inl hforever
  · obtain ⟨result, printed', hagree'⟩ := hends
    exact .inr ⟨enough, result, _, _, hruns, rfl, hagree'⟩

/-- Statements have to do with the names in them and with no others. From variables that agree on
these names, both runs go on forever, or both print the same lines and end with the same result, and
the variables still agree. Every run leaves the other names as they were, unbinds nothing, and binds
nothing new but targets of assignments and declared names, at every moment and at its end, failed or
not. -/
theorem Node.execAll_footprint (statements : List Node) (room : Headroom) :
    (∀ (vars vars' : Variables) (printed : Array String),
      vars.AgreeOn (Node.names statements) vars' →
      ((∀ fuel, Exec.outcome (Node.execAll fuel room statements) ⟨vars, printed⟩ = none) ∧
        ∀ fuel, Exec.outcome (Node.execAll fuel room statements) ⟨vars', printed⟩ = none) ∨
      ∃ (enough : Nat) (result : Except Failure Unit) (last last' : Machine),
        (∀ fuel ≥ enough,
          Exec.outcome (Node.execAll fuel room statements) ⟨vars, printed⟩ = some (result, last) ∧
          Exec.outcome (Node.execAll fuel room statements) ⟨vars', printed⟩ =
            some (result, last')) ∧
        last'.printed = last.printed ∧ last.vars.AgreeOn (Node.names statements) last'.vars) ∧
    ∀ (machine : Machine) (fuel : Nat),
      machine.vars.FramedBy statements (Node.varsAll fuel room statements machine) ∧
      ∀ result last,
        Exec.outcome (Node.execAll fuel room statements) machine = some (result, last) →
          machine.vars.FramedBy statements last.vars := by
  refine ⟨fun vars vars' printed hagree => ?_, fun machine fuel => ?_⟩
  · exact Node.outcome_execAll_of_agreeOn hagree room printed
  · have hframed := Node.framedBy_varsAll fuel room statements machine
    refine ⟨hframed, fun result last hout => ?_⟩
    rwa [Node.varsAll_of_outcome hout] at hframed

/-- The statements `while (a = b) { print c; b = null; } u;`. -/
def Node.emptying : List Node :=
  [.loop (.assign "a" (.reference "b" (some 1)) (some 1))
    (.block [.print (.reference "c" (some 1)) (some 1),
      .evaluate (.assign "b" (.literal .null (some 1)) (some 1)) (some 1)] (some 1)) (some 1),
    .evaluate (.reference "u" (some 2)) (some 2)]

/-- Variables with a value for all that is read before `u`. -/
def Variables.sparse : Variables := ((∅ : Variables).insert "b" (.bool true)).insert "c" .null

/-- The same variables and one that the statements do not name. -/
def Variables.spare : Variables := Variables.sparse.insert "z" .null

/-- A loop that assigns in its condition runs once, and then a name is not bound. A variable that is
not named changes nothing and stays. -/
theorem Node.execAll_footprint_emptying :
    Variables.sparse.AgreeOn (Node.names Node.emptying) Variables.spare ∧
    ∃ (enough : Nat) (last last' : Machine),
      (∀ fuel ≥ enough,
        Exec.outcome (Node.execAll fuel .standard Node.emptying) ⟨Variables.sparse, #[]⟩ =
          some (.error ⟨.undefinedVariable "u", some 2⟩, last) ∧
        Exec.outcome (Node.execAll fuel .standard Node.emptying) ⟨Variables.spare, #[]⟩ =
          some (.error ⟨.undefinedVariable "u", some 2⟩, last')) ∧
      last'.printed = #["null"] ∧ last'.vars["a"]? = some .null ∧
      last'.vars["z"]? = some .null := by
  have hunnamed : ∀ use ∈ Node.usesOf Node.emptying, use.2 ≠ "z" := by decide
  have hagree : Variables.sparse.AgreeOn (Node.names Node.emptying) Variables.spare := by
    rintro name ⟨use, hmem⟩
    have hne : "z" ≠ name := fun heq => hunnamed _ hmem heq.symm
    rw [Variables.spare, Std.TreeMap.getElem?_insert, if_neg (by simpa using hne)]
  have hrun : Exec.outcome (Node.execAll 4 .standard Node.emptying) ⟨Variables.sparse, #[]⟩ =
      some (.error ⟨.undefinedVariable "u", some 2⟩,
        ⟨((Variables.sparse.insert "a" (.bool true)).insert "b" .null).insert "a" .null,
          #["null"]⟩) := rfl
  obtain ⟨htwo, hone⟩ := Node.execAll_footprint Node.emptying .standard
  refine ⟨hagree, ?_⟩
  obtain ⟨hforever, -⟩ | ⟨enough, result, last, last', hruns, hprinted, hlast⟩ :=
    htwo _ _ #[] hagree
  · rw [hforever 4] at hrun
    cases hrun
  · have hmore := Node.extends_execAll (Nat.le_max_right enough 4) _ _ _ _ hrun
    rw [(hruns _ (Nat.le_max_left enough 4)).1, Option.some.injEq, Prod.mk.injEq] at hmore
    obtain ⟨rfl, rfl⟩ := hmore
    have hframed := (hone _ enough).2 _ _ (hruns enough le_rfl).2
    refine ⟨enough, _, last', hruns, hprinted, hlast "a" ⟨.assigned, by decide⟩, ?_⟩
    rw [hframed.outside "z" fun ⟨use, hmem⟩ => hunnamed _ hmem rfl]
    rfl

end ScriptKit
