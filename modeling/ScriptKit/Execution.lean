import ScriptKit.Evaluation

/-!
# Execution of statements

A machine holds the variables of a program and the lines it has printed. `Node.exec` runs a
statement on a machine. A loop need not end, so execution is given fuel: each statement and each
round of a loop uses some up, and `none` says that the fuel did not suffice. A program runs
forever exactly if no amount of fuel suffices.
-/

set_option autoImplicit false

namespace ScriptKit

/-- The state of a running program. -/
structure Machine where
  /-- The variables. -/
  vars : Variables
  /-- The lines printed so far. -/
  printed : Array String

/-- A step of execution, which changes the machine, may fail and may run out of fuel. -/
abbrev Exec := ExceptT Failure (StateT Machine Option)

namespace Exec

/-- More fuel than a run uses up in a lifetime. -/
def ampleFuel : Nat := 1 <<< 62

/-- The fuel did not suffice. -/
def outOfFuel {α : Type} : Exec α := fun _ => none

/-- An evaluation as a step of execution. -/
def ofEval {α : Type} (action : Eval α) : Exec α := fun machine =>
  let (result, vars) := action machine.vars
  some (result, { machine with vars })

/-- Bind a variable. -/
def store (name : String) (value : Value) : Exec Unit :=
  modify fun machine => { machine with vars := machine.vars.insert name value }

/-- Print a line. -/
def print (line : String) : Exec Unit :=
  modify fun machine => { machine with printed := machine.printed.push line }

/-- Run steps for all nodes, in order, up to the first failure. -/
def forAll (step : Node → Exec Unit) : List Node → Exec Unit
  | [] => return ()
  | first :: rest => do
    step first
    forAll step rest

end Exec

/-- Run a statement. A marker for a malformed statement does nothing, and each level of the tree
takes one level of headroom. -/
def Node.exec : Nat → Headroom → Node → Exec Unit
  | 0, _, _ => Exec.outOfFuel
  | fuel + 1, room, node =>
    match room.enter? with
    | none => throw .tooDeep
    | some inner =>
      match node with
      | .evaluate expression _ => do
        let _ ← Exec.ofEval (expression.eval inner)
      | .print expression _ => do
        let value ← Exec.ofEval (expression.eval inner)
        Exec.print value.text
      | .declare name _ => Exec.store name .null
      | .define name initial _ => do
        let value ← Exec.ofEval (initial.eval inner)
        Exec.store name value
      | .block statements _ => Exec.forAll (Node.exec fuel inner) statements
      | .ifThen condition thenBranch _ => do
        let value ← Exec.ofEval (condition.eval inner)
        if value.holds then Node.exec fuel inner thenBranch
      | .ifElse condition thenBranch elseBranch _ => do
        let value ← Exec.ofEval (condition.eval inner)
        if value.holds then Node.exec fuel inner thenBranch
        else Node.exec fuel inner elseBranch
      | .loop condition body _ => do
        let value ← Exec.ofEval (condition.eval inner)
        if value.holds then
          Node.exec fuel inner body
          Node.exec fuel room node
      | .skipped .. => return ()
      | other => throw other.misplaced

/-- Run statements in order, up to the first failure. -/
def Node.execAll (fuel : Nat) (room : Headroom) (statements : List Node) : Exec Unit :=
  Exec.forAll (Node.exec fuel room) statements

end ScriptKit
