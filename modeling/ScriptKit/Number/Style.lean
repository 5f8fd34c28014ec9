import ScriptKit.Number.Shortest
import ScriptKit.Number.Dyadic

/-!
# The text of a number

Two texts of a number are in use. In source-like text a whole number keeps a `.0`; printed by a
program it does not. A `Style` holds the decisions in which they differ or might differ, and
`Style.render` is the one writer for both.
-/

set_option autoImplicit false

namespace ScriptKit.Number

/-- How a number is written. -/
structure Style where
  /-- The least decimal exponent that is written without an exponent mark. -/
  leastPositional : Int
  /-- The greatest decimal exponent that is written without an exponent mark. -/
  greatestPositional : Int
  /-- What follows a whole number written without an exponent mark. -/
  wholeMark : String
  /-- The text of infinity, without its sign. -/
  infinity : String
  /-- The text of a result that is no number. -/
  undefined : String
deriving Repr

/-- Source-like text, in which `1.0` and `1` are told apart. -/
def Style.source : Style := ⟨-4, 15, ".0", "inf", "nan"⟩

/-- The text that a program prints. -/
def Style.printed : Style := ⟨-4, 15, "", "Infinity", "NaN"⟩

/-- The text of a sign: only a minus is written. -/
def signText : Float.Model.UnpackedFloat.Sign → String
  | .negative => "-"
  | .positive => ""

/-- The decimal digits of a natural number, without leading zeros. -/
def decimalDigits (n : Nat) : List Char := Nat.toDigits 10 n

/-- An exponent mark: the sign is always written, and at least two digits. -/
def exponentMark (exponent : Int) : List Char :=
  let digits := decimalDigits exponent.natAbs
  'e' :: (if exponent < 0 then '-' else '+') :: (List.replicate (2 - digits.length) '0' ++ digits)

/-- The text of a positive decimal. The point stands where it belongs if the decimal exponent is
within the positional range; otherwise it stands after the first digit, and an exponent mark
follows. -/
def Style.layout (style : Style) (x : Decimal) : String :=
  let digits := decimalDigits x.digits
  let point : Int := digits.length + x.exponent
  if style.leastPositional ≤ point - 1 ∧ point - 1 ≤ style.greatestPositional then
    if point ≤ 0 then
      "0." ++ String.ofList (List.replicate (-point).toNat '0' ++ digits)
    else if digits.length ≤ point then
      String.ofList (digits ++ List.replicate (point.toNat - digits.length) '0') ++ style.wholeMark
    else
      String.ofList (digits.take point.toNat ++ '.' :: digits.drop point.toNat)
  else
    let mantissa :=
      match digits with
      | first :: second :: rest => first :: '.' :: second :: rest
      | short => short
    String.ofList (mantissa ++ exponentMark (point - 1))

/-- The text of a number in the given style. -/
def Style.render (style : Style) (x : Float) : String :=
  match x.toModel.unpack with
  | .notANumber => style.undefined
  | .infinity sign => signText sign ++ style.infinity
  | .zero sign => signText sign ++ "0" ++ style.wholeMark
  | .finite sign m e _ => signText sign ++ style.layout (shortest m e)

end ScriptKit.Number
