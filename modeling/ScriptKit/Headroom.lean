/-!
# Headroom

Walks over a program tree go only so many levels deep. `Headroom` says how many levels are left.
How many there are to begin with is for the caller to say.
-/

set_option autoImplicit false

namespace ScriptKit

/-- How many levels deeper a walk may go. -/
inductive Headroom where
  | unlimited
  | levels (n : Nat)
deriving DecidableEq, Repr

namespace Headroom

/-- What is left one level deeper, if that level may be entered. -/
def enter? : Headroom → Option Headroom
  | unlimited => some unlimited
  | levels 0 => none
  | levels (n + 1) => some (levels n)

/-- The depth to which programs are evaluated and listed where nothing else is asked for. -/
def standard : Headroom := levels 1000

end Headroom

end ScriptKit
