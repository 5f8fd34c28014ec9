import ScriptKit.Fault
import ScriptKit.Token
import ScriptKit.Value

/-!
# Binary operators

Five operators of arithmetic, two comparisons and equality. Arithmetic and comparison are for
numbers only; equality is for all values.
-/

set_option autoImplicit false

namespace ScriptKit

/-- The binary operators. -/
inductive Operator where
  | add
  | subtract
  | multiply
  | divide
  | modulo
  | less
  | greater
  | equal
deriving DecidableEq, Repr

namespace Operator

/-- All binary operators. -/
def all : List Operator := [.add, .subtract, .multiply, .divide, .modulo, .less, .greater, .equal]

/-- How the operator is written. -/
def spelling : Operator → String
  | add => "+"
  | subtract => "-"
  | multiply => "*"
  | divide => "/"
  | modulo => "%"
  | less => "<"
  | greater => ">"
  | equal => "=="

/-- The operator that is written so. -/
def ofSpelling? (text : String) : Option Operator := all.find? (·.spelling = text)

/-- The operator on two numbers. Division and remainder by either zero have no result. -/
def onNumbers (op : Operator) (x y : Float) : Except RuntimeFault Value :=
  match op with
  | add => .ok (.number (x + y))
  | subtract => .ok (.number (x - y))
  | multiply => .ok (.number (x * y))
  | divide =>
    if y == 0 then .error (.divisionByZero op.spelling) else .ok (.number (x / y))
  | modulo =>
    if y == 0 then .error (.divisionByZero op.spelling)
    else .ok (.number (Number.remainder x y))
  | less => .ok (.bool (x < y))
  | greater => .ok (.bool (x > y))
  | equal => .ok (.bool (x == y))

/-- The operator on two values. -/
def apply (op : Operator) (lhs rhs : Value) : Except RuntimeFault Value :=
  match op, lhs, rhs with
  | equal, _, _ => .ok (.bool (lhs.isEqual rhs))
  | _, .number x, .number y => op.onNumbers x y
  | _, _, _ => .error (.operandType op.spelling)

/-- The operator that is written so, on two values. Text that spells no operator is an unknown
operation, whatever the operands are. -/
def applySpelled (text : String) (lhs rhs : Value) : Except RuntimeFault Value :=
  match ofSpelling? text with
  | some op => op.apply lhs rhs
  | none => .error (.unknownOperation text)

end Operator

end ScriptKit
