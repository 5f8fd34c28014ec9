import ScriptKit.Number.Style
import ScriptKit.Text.Quoted

/-!
# Values

A program computes with numbers, truth values and the absent value `null`. A host may bind a
variable to a value of its own; the program can pass such a foreign value on and print it, and
nothing more.
-/

set_option autoImplicit false

namespace ScriptKit

/-- The values of a running program. -/
inductive Value where
  | null
  | bool (b : Bool)
  | number (x : Float)
  | foreign (text : String)
deriving DecidableEq, Repr

namespace Value

/-- Does the value count as true? The absent value does not; every number does, zero too. -/
def holds : Value → Bool
  | null => false
  | bool b => b
  | number _ => true
  | foreign _ => true

/-- Are two values equal? Values of different sorts never are. Numbers are compared as IEEE 754
says, so the two zeros are equal and a result that is no number differs from itself. A foreign
value equals nothing. -/
def isEqual : Value → Value → Bool
  | null, null => true
  | bool a, bool b => a == b
  | number x, number y => x == y
  | _, _ => false

/-- The text of a truth value. -/
def boolText (b : Bool) : String := if b then "true" else "false"

/-- The text that a program prints for the value. -/
def text : Value → String
  | null => "null"
  | bool b => boolText b
  | number x => Number.Style.printed.render x
  | foreign text => text

/-- The text of the value in a program listing. -/
def sourceText : Value → String
  | null => "null"
  | bool b => boolText b
  | number x => Number.Style.source.render x
  | foreign text => Text.quoted text

end Value

end ScriptKit
