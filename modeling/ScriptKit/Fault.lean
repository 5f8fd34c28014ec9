/-!
# Faults and reports

Everything that can be wrong with a program has a cause. A report is a cause together with where
it was found; its message says both, and its entry is the line written to the error stream.
-/

set_option autoImplicit false

namespace ScriptKit

/-- Why a running program stops early. -/
inductive RuntimeFault where
  /-- A failure that is known only by its description. -/
  | described (message : String)
  /-- A variable is read that was never bound. -/
  | undefinedVariable (name : String)
  /-- An operand of arithmetic or comparison is not a number. -/
  | operandType (operator : String)
  /-- The right operand of a division or of a remainder is zero. -/
  | divisionByZero (operator : String)
  /-- A node stands where it means nothing. -/
  | unknownOperation (tag : String)
  /-- The program is nested deeper than evaluation goes. -/
  | nestedTooDeep
deriving DecidableEq, Repr

namespace RuntimeFault

/-- What the fault is, without its place. -/
def text : RuntimeFault → String
  | described message => message
  | undefinedVariable name => s!"Undefined variable '{name}'"
  | operandType operator => s!"Operands of '{operator}' must be numbers"
  | divisionByZero operator =>
    if operator = "%" then "Modulo by zero" else "Division by zero"
  | unknownOperation tag => s!"Unknown operation '{tag}'"
  | nestedTooDeep => "Expression nested too deeply to evaluate"

/-- The name under which the fault is reported. -/
def label : RuntimeFault → String
  | described _ => "ScriptRuntimeError"
  | undefinedVariable _ => "UndefinedVariableException"
  | operandType _ => "OperandTypeException"
  | divisionByZero _ => "DivisionByZeroException"
  | unknownOperation _ => "UnknownOpException"
  | nestedTooDeep => "NestingDepthException"

end RuntimeFault

/-- What can be wrong with a program, before it runs or while it runs. -/
inductive Fault where
  /-- A character that belongs to no token. -/
  | strayCharacter (text : String)
  /-- A statement that breaks the grammar; `atEnd` says that the text ended too early. -/
  | malformed (message : String) (atEnd : Bool)
  /-- A failure of the running program. -/
  | runtime (fault : RuntimeFault)
deriving DecidableEq, Repr

namespace Fault

/-- What the fault is, without its place. -/
def text : Fault → String
  | strayCharacter char => s!"Unexpected character '{char}'"
  | malformed message _ => message
  | runtime fault => fault.text

/-- The name under which the fault is reported. -/
def label : Fault → String
  | strayCharacter _ => "LexError"
  | malformed .. => "ParseError"
  | runtime fault => fault.label

/-- Did the fault arise while the program ran? -/
def isRuntime : Fault → Bool
  | runtime _ => true
  | _ => false

end Fault

/-- A fault and where it was found, as far as that is known. -/
structure Report where
  fault : Fault
  line : Option Int
  file : Option String
deriving DecidableEq, Repr

/-- A text with the place that it speaks of. -/
def located (text : String) (line : Option Int) (file : Option String) : String :=
  text ++ (line.elim "" fun n => s!" on line {n}") ++ (file.elim "" fun name => s!" in {name}")

namespace Report

/-- What is wrong, and where. -/
def message (report : Report) : String :=
  located report.fault.text report.line report.file

/-- The line that is written to the error stream. -/
def entry (report : Report) : String :=
  report.fault.label ++ ": " ++ report.message ++ "\n"

end Report

end ScriptKit
