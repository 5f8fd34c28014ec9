import ScriptKit.Proofs.RunReport

/-!
# Flat programs

A block opens no scope, and a marker does nothing. So a list of statements does the same if markers
are left out of it and the statements of a block stand in it in place of the block, at every depth.
`Node.flatten` makes such a list, and `Node.areFlat` says that nothing is left to be done.

A flat program needs less fuel than the other one, because it enters fewer blocks. The other one
needs at most as much more as its statements are nested. So either both run forever or both come to
the same end.
-/

set_option autoImplicit false

namespace ScriptKit

namespace Node

/-- What a statement adds to a list of statements: a block its own statements, a marker nothing, and
every other statement itself. -/
@[simp] def contribution : Node → List Node
  | block statements _ => statements
  | skipped .. => []
  | other => [other]

/-- Is the node a block? -/
def isBlock : Node → Bool
  | block .. => true
  | _ => false

mutual

/-- The statement with all lists in it flattened. A branch that is a block stays one block. -/
@[simp] def flat : Node → Node
  | block statements line => .block (flatten statements) line
  | ifThen condition thenBranch line => .ifThen condition thenBranch.flat line
  | ifElse condition thenBranch elseBranch line =>
    .ifElse condition thenBranch.flat elseBranch.flat line
  | loop condition body line => .loop condition body.flat line
  | other => other

/-- The statements without markers, with the statements of a block in place of the block. -/
@[simp] def flatten : List Node → List Node
  | [] => []
  | first :: rest => first.flat.contribution ++ flatten rest

end

mutual

/-- Are all lists in the statement flat? -/
@[simp] def isFlat : Node → Bool
  | block statements _ => areFlat statements
  | ifThen _ thenBranch _ => thenBranch.isFlat
  | ifElse _ thenBranch elseBranch _ => thenBranch.isFlat && elseBranch.isFlat
  | loop _ body _ => body.isFlat
  | _ => true

/-- Is the list without markers and blocks, and are all lists in its statements so, too? -/
@[simp] def areFlat : List Node → Bool
  | [] => true
  | first :: rest => !first.isMarker && !first.isBlock && first.isFlat && areFlat rest

end

/-- Two lists in a row are flat if both are. -/
theorem areFlat_append (nodes nodes' : List Node) :
    areFlat (nodes ++ nodes') = (areFlat nodes && areFlat nodes') := by
  induction nodes with
  | nil => simp
  | cons first rest ih => simp [ih, Bool.and_assoc]

/-- What a flat statement adds to a list is flat. -/
theorem areFlat_contribution {node : Node} (h : node.isFlat = true) :
    areFlat node.contribution = true := by
  cases node with
  | block statements line => exact h
  | skipped message line => rfl
  | _ => simp_all [isMarker, isBlock]

mutual

/-- Nothing is left to be flattened in a statement. -/
theorem isFlat_flat (node : Node) : node.flat.isFlat = true := by
  cases node with
  | block statements line => exact areFlat_flatten statements
  | ifThen condition thenBranch line => exact isFlat_flat thenBranch
  | ifElse condition thenBranch elseBranch line =>
    simp [isFlat_flat thenBranch, isFlat_flat elseBranch]
  | loop condition body line => exact isFlat_flat body
  | _ => rfl

/-- Nothing is left to be flattened in a list. -/
theorem areFlat_flatten (nodes : List Node) : areFlat (flatten nodes) = true := by
  cases nodes with
  | nil => rfl
  | cons first rest =>
    rw [flatten, areFlat_append, areFlat_contribution (isFlat_flat first), areFlat_flatten rest]
    rfl

end

end Node

namespace Exec

variable {α : Type} {step step' : Node → Exec Unit}

/-- What extends an extension of a step extends the step. -/
theorem Extends.trans {action action' action'' : Exec α} (h : Extends action action')
    (h' : Extends action' action'') : Extends action action'' :=
  fun machine result hout => h' machine result (h machine result hout)

/-- Steps for two lists, one after the other. -/
theorem extends_append_forAll (step : Node → Exec Unit) (nodes nodes' : List Node) :
    Extends (do
      forAll step nodes
      forAll step nodes') (forAll step (nodes ++ nodes')) :=
  fun machine result hout => by rwa [outcome_forAll_append]

/-- Steps for two lists in a row are steps for the first and then for the second. -/
theorem extends_forAll_append (step : Node → Exec Unit) (nodes nodes' : List Node) :
    Extends (forAll step (nodes ++ nodes')) (do
      forAll step nodes
      forAll step nodes') :=
  fun machine result hout => by rwa [← outcome_forAll_append]

/-- Steps for one node are the step for it. -/
theorem outcome_forAll_singleton (step : Node → Exec Unit) (node : Node) (machine : Machine) :
    outcome (forAll step [node]) machine = outcome (step node) machine := by
  rw [forAll, outcome_bind]
  rcases outcome (step node) machine with _ | ⟨_ | _, _⟩ <;> rfl

/-- Steps for a list that are steps for what its statements add to the flat list. -/
theorem extends_flatten {nodes : List Node}
    (h : ∀ node ∈ nodes, Extends (step node) (forAll step' node.flat.contribution)) :
    Extends (forAll step nodes) (forAll step' (Node.flatten nodes)) := by
  induction nodes with
  | nil => exact .refl _
  | cons first rest ih =>
    rw [List.forall_mem_cons] at h
    rw [Node.flatten]
    exact (h.1.bind fun _ => ih h.2).trans (extends_append_forAll step' _ _)

/-- Steps for what the statements of a list add to the flat list that are steps for the list. -/
theorem flatten_extends {nodes : List Node}
    (h : ∀ node ∈ nodes, Extends (forAll step' node.flat.contribution) (step node)) :
    Extends (forAll step' (Node.flatten nodes)) (forAll step nodes) := by
  induction nodes with
  | nil => exact .refl _
  | cons first rest ih =>
    rw [List.forall_mem_cons] at h
    rw [Node.flatten]
    exact (extends_forAll_append step' _ _).trans (h.1.bind fun _ => ih h.2)

end Exec

namespace Node

/-- What a statement adds to a list does what the statement does. -/
theorem extends_exec_contribution (fuel : Nat) (node : Node) :
    Exec.Extends (node.exec fuel .unlimited)
      (Exec.forAll (Node.exec fuel .unlimited) node.contribution) := by
  cases fuel with
  | zero => intro machine result hout; cases hout
  | succ fuel =>
    cases node with
    | block statements line => exact .forAll (Node.extends_exec_succ fuel .unlimited) statements
    | skipped message line => exact .refl _
    | _ =>
      intro machine result hout
      exact (Exec.outcome_forAll_singleton _ _ machine).trans hout

/-- With one more unit of fuel a statement does what it adds to a list. -/
theorem contribution_extends_exec (fuel : Nat) (node : Node) :
    Exec.Extends (Exec.forAll (Node.exec fuel .unlimited) node.contribution)
      (node.exec (fuel + 1) .unlimited) := by
  cases node with
  | block statements line => exact .refl _
  | skipped message line => exact .refl _
  | _ =>
    intro machine result hout
    have hstep := (Exec.outcome_forAll_singleton _ _ machine).symm.trans hout
    exact Node.extends_exec_succ fuel .unlimited _ machine result hstep

/-- A flattened statement does what the statement does. -/
theorem extends_exec_flat (fuel : Nat) (node : Node) :
    Exec.Extends (node.exec fuel .unlimited) (node.flat.exec fuel .unlimited) := by
  induction fuel generalizing node with
  | zero => intro machine result hout; cases hout
  | succ fuel ih =>
    -- A loop goes on as itself with less fuel.
    have hloop := ih node
    cases node with
    | block statements line =>
      exact Exec.extends_flatten fun node _ => (ih node).trans (extends_exec_contribution fuel _)
    | ifThen condition thenBranch line =>
      refine (Exec.Extends.refl _).bind fun value => ?_
      split_ifs
      · exact ih thenBranch
      · exact .refl _
    | ifElse condition thenBranch elseBranch line =>
      refine (Exec.Extends.refl _).bind fun value => ?_
      split_ifs
      · exact ih thenBranch
      · exact ih elseBranch
    | loop condition body line =>
      refine (Exec.Extends.refl _).bind fun value => ?_
      split_ifs
      · exact (ih body).bind fun _ => hloop
      · exact .refl _
    | _ => exact .refl _

/-- A statement does what it does flattened, with as much more fuel as it is nested. -/
theorem flat_extends_exec (fuel : Nat) {more : Nat} {node : Node} (h : node.nesting ≤ more) :
    Exec.Extends (node.flat.exec fuel .unlimited) (node.exec (fuel + more) .unlimited) := by
  induction fuel generalizing more node with
  | zero => intro machine result hout; cases hout
  | succ fuel ih =>
    -- Branches and rounds have less fuel, and a block has its statements less nested.
    induction more generalizing node with
    | zero => exact absurd node.nesting_pos (by omega)
    | succ more ihmore =>
      have hloop := ih h
      rw [Nat.add_right_comm]
      cases node with
      | block statements line =>
        have hinner := nestingOf_le_iff.mp (Nat.le_of_succ_le_succ h)
        refine Exec.flatten_extends fun node hmem => (contribution_extends_exec fuel _).trans ?_
        have hnode := ihmore (hinner node hmem)
        rwa [Nat.add_right_comm] at hnode
      | ifThen condition thenBranch line =>
        refine (Exec.Extends.refl _).bind fun value => ?_
        split_ifs
        · exact ih (Nat.le_of_succ_le h)
        · exact .refl _
      | ifElse condition thenBranch elseBranch line =>
        have hbranches := Nat.max_le.mp (Nat.le_of_succ_le h)
        refine (Exec.Extends.refl _).bind fun value => ?_
        split_ifs
        · exact ih hbranches.1
        · exact ih hbranches.2
      | loop condition body line =>
        refine (Exec.Extends.refl _).bind fun value => ?_
        split_ifs
        · exact (ih (Nat.le_of_succ_le h)).bind fun _ => hloop
        · exact .refl _
      | _ => exact .refl _

/-- Flattened statements do what the statements do, with as much fuel. -/
theorem extends_execAll_flatten (fuel : Nat) (nodes : List Node) :
    Exec.Extends (execAll fuel .unlimited nodes) (execAll fuel .unlimited (flatten nodes)) :=
  Exec.extends_flatten fun node _ =>
    (extends_exec_flat fuel node).trans (extends_exec_contribution fuel _)

/-- The statements do what the flattened ones do, with as much more fuel as blocks stand in each
other. -/
theorem flatten_extends_execAll (fuel : Nat) (nodes : List Node) :
    Exec.Extends (execAll fuel .unlimited (flatten nodes))
      (execAll (fuel + 1 + nestingOf nodes) .unlimited nodes) :=
  Exec.flatten_extends fun node hmem =>
    (contribution_extends_exec fuel _).trans
      (flat_extends_exec (fuel + 1) (nestingOf_le_iff.mp le_rfl node hmem))

end Node

/-- Two runs each of which comes to the ends of the other, and that more fuel does not change: both
go on forever, or both come to the same end. -/
theorem forever_or_same {α : Type} {run run' : Nat → Option α}
    (hmono : ∀ {fuel fuel' : Nat} {a : α}, fuel ≤ fuel' → run fuel = some a → run fuel' = some a)
    (hmono' : ∀ {fuel fuel' : Nat} {a : α}, fuel ≤ fuel' → run' fuel = some a → run' fuel' = some a)
    (hto : ∀ fuel a, run fuel = some a → ∃ fuel', run' fuel' = some a)
    (hfrom : ∀ fuel a, run' fuel = some a → ∃ fuel', run fuel' = some a) :
    ((∀ fuel, run fuel = none) ∧ ∀ fuel, run' fuel = none) ∨
      ∃ (enough : Nat) (a : α), ∀ fuel ≥ enough, run fuel = some a ∧ run' fuel = some a := by
  by_cases hforever : ∀ fuel, run fuel = none
  · refine .inl ⟨hforever, fun fuel => ?_⟩
    cases hrun : run' fuel with
    | none => rfl
    | some a =>
      obtain ⟨fuel', hsame⟩ := hfrom fuel a hrun
      rw [hforever fuel'] at hsame
      cases hsame
  · obtain ⟨fuel, hends⟩ := not_forall.mp hforever
    obtain ⟨a, hrun⟩ := Option.ne_none_iff_exists'.mp hends
    obtain ⟨fuel', hrun'⟩ := hto fuel a hrun
    exact .inr ⟨max fuel fuel', a, fun more hle =>
      ⟨hmono (le_of_max_le_left hle) hrun, hmono' (le_of_max_le_right hle) hrun'⟩⟩

namespace Node

/-- Blocks and markers do not matter for a run. A list of statements can be flattened, so that at
every depth no block and no marker is an element of a list. Without a limit of depth both lists run
forever, or both come to an end, with the same variables, the same printed lines and the same
failure on the same line, if there is one. -/
theorem execAll_flatten (nodes : List Node) (machine : Machine) :
    areFlat (flatten nodes) = true ∧
    (((∀ fuel, Exec.outcome (execAll fuel .unlimited nodes) machine = none) ∧
        ∀ fuel, Exec.outcome (execAll fuel .unlimited (flatten nodes)) machine = none) ∨
      ∃ (enough : Nat) (outcome : Except Failure Unit × Machine), ∀ fuel ≥ enough,
        Exec.outcome (execAll fuel .unlimited nodes) machine = some outcome ∧
        Exec.outcome (execAll fuel .unlimited (flatten nodes)) machine = some outcome) := by
  refine ⟨areFlat_flatten nodes, forever_or_same ?_ ?_ ?_ ?_⟩
  · exact fun hle hrun => extends_execAll hle .unlimited nodes machine _ hrun
  · exact fun hle hrun => extends_execAll hle .unlimited (flatten nodes) machine _ hrun
  · exact fun fuel outcome hrun => ⟨fuel, extends_execAll_flatten fuel nodes machine outcome hrun⟩
  · exact fun fuel outcome hrun => ⟨_, flatten_extends_execAll fuel nodes machine outcome hrun⟩

/-- A marker and a block in a block, and both again in the body of a loop. -/
def blocksInBlocks : List Node :=
  [.block [.skipped "lost" (some 1), .block [.print (.reference "x" (some 2)) (some 2)] (some 2)]
    (some 1),
    .loop (.binary .equal (.reference "x" (some 3)) (.reference "x" (some 3)) (some 3))
      (.block [.block [.evaluate (.reference "y" (some 4)) (some 4)] (some 4),
        .skipped "lost" (some 5)] (some 3)) (some 3)]

/-- The body of the loop stays a block, and the failure in it has its line. -/
theorem execAll_flatten_blocksInBlocks :
    flatten blocksInBlocks =
      [.print (.reference "x" (some 2)) (some 2),
        .loop (.binary .equal (.reference "x" (some 3)) (.reference "x" (some 3)) (some 3))
          (.block [.evaluate (.reference "y" (some 4)) (some 4)] (some 3)) (some 3)] ∧
    ∃ enough, ∀ fuel ≥ enough,
      Exec.outcome (execAll fuel .unlimited (flatten blocksInBlocks))
          ⟨(∅ : Variables).insert "x" .null, #[]⟩ =
        some (.error ⟨.undefinedVariable "y", some 4⟩,
          ⟨(∅ : Variables).insert "x" .null, #["null"]⟩) := by
  have hrun : Exec.outcome (execAll 4 .unlimited blocksInBlocks)
      ⟨(∅ : Variables).insert "x" .null, #[]⟩ =
        some (.error ⟨.undefinedVariable "y", some 4⟩,
          ⟨(∅ : Variables).insert "x" .null, #["null"]⟩) := rfl
  refine ⟨rfl, ?_⟩
  obtain ⟨-, ⟨hforever, -⟩ | ⟨enough, outcome, hruns⟩⟩ :=
    execAll_flatten blocksInBlocks ⟨(∅ : Variables).insert "x" .null, #[]⟩
  · rw [hforever 4] at hrun
    cases hrun
  · have hmore := extends_execAll (Nat.le_max_right enough 4) .unlimited _ _ _ hrun
    rw [(hruns _ (Nat.le_max_left enough 4)).1, Option.some.injEq] at hmore
    subst hmore
    exact ⟨enough, fun fuel hle => (hruns fuel hle).2⟩

end Node

end ScriptKit
