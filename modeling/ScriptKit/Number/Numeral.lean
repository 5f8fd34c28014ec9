import ScriptKit.Number.Dyadic

/-!
# Numerals

A numeral is a run of decimal digits. Its value is the double nearest to the natural number that
it spells; a numeral beyond the greatest double is infinite.
-/

set_option autoImplicit false

namespace ScriptKit.Number

/-- The natural number that a run of decimal digits spells. -/
def naturalOfDigits (digits : List Char) : Nat :=
  digits.foldl (fun n c => 10 * n + (c.toNat - '0'.toNat)) 0

/-- The double that a run of decimal digits denotes. -/
def ofNumeral (text : String) : Float :=
  ofNat (naturalOfDigits text.toList)

end ScriptKit.Number
