import ScriptKit.Headroom
import ScriptKit.Node
import Std.Data.TreeMap

/-!
# Evaluation of expressions

All variables of a program live in one place, and an assignment binds its variable whether it was
declared or not. `Node.eval` gives the value of an expression and the variables after it; also
after a failure the assignments made until then stay.
-/

set_option autoImplicit false

namespace ScriptKit

/-- The variables of a program and their values, in the order of their names. -/
abbrev Variables := Std.TreeMap String Value

/-- Why a program stopped, and the line of the node that stopped it. -/
structure Failure where
  fault : RuntimeFault
  line : SourceLine
deriving DecidableEq, Repr

/-- The failure of a program that is nested too deep. It belongs to no line. -/
def Failure.tooDeep : Failure := ⟨.nestedTooDeep, none⟩

/-- The report on a failure of a program of the given name. -/
def Failure.report (file : Option String) (failure : Failure) : Report :=
  ⟨.runtime failure.fault, failure.line, file⟩

/-- A step of evaluation, which may bind variables and may fail. -/
abbrev Eval := ExceptT Failure (StateM Variables)

/-- The failure of a node that means nothing where it stands. -/
def Node.misplaced (node : Node) : Failure := ⟨.unknownOperation node.tag, node.line⟩

/-- The value of an expression. Operands are evaluated from left to right, and each level of the
tree takes one level of headroom. -/
def Node.eval (room : Headroom) (node : Node) : Eval Value :=
  match room.enter? with
  | none => throw .tooDeep
  | some inner =>
    match node with
    | .literal value _ => return value
    | .reference name line => do
      match (← get)[name]? with
      | some value => return value
      | none => throw ⟨.undefinedVariable name, line⟩
    | .assign name expression _ => do
      let value ← expression.eval inner
      modify (·.insert name value)
      return value
    | .binary op lhs rhs line => do
      let left ← lhs.eval inner
      let right ← rhs.eval inner
      match op.apply left right with
      | .ok value => return value
      | .error fault => throw ⟨fault, line⟩
    | other => throw other.misplaced

end ScriptKit
