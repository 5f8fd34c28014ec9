/-!
# Doubles as dyadic numbers

A finite double is `±m · 2^e` for a natural `m` and an integer `e`. This module holds what the
language needs beyond the four operations of `Float`: the double nearest to a dyadic number, the
double nearest to a natural number, and the exact remainder of a division that rounds toward zero.
All of it is computed on `m` and `e` in exact integer arithmetic.
-/

set_option autoImplicit false

namespace ScriptKit.Number

open Float.Model

/-- The double nearest to `±m · 2^e`, a half going to the even neighbour. Zero keeps the sign. -/
def ofDyadic (sign : UnpackedFloat.Sign) (m : Nat) (e : Int) : Float :=
  .ofModel (.pack (.round .binary64 sign m e))

/-- The double nearest to a natural number, a half going to the even neighbour. -/
def ofNat (n : Nat) : Float :=
  .ofModel (.ofNat n)

/-- The result of an operation that has no numeric answer. -/
def nan : Float :=
  .ofModel (.pack .notANumber)

/-- The remainder of `x` by `y` when the quotient is rounded toward zero.

The remainder is exact, is smaller than `y` in size and has the sign of `x`, also when it is zero.
A finite `x` is its own remainder by an infinite `y`. There is no number as remainder when `x` is
not finite, when `y` is not a number or when `y` is zero. -/
def remainder (x y : Float) : Float :=
  match x.toModel.unpack, y.toModel.unpack with
  | .finite sign m e _, .finite _ n f _ =>
    let g := min e f
    ofDyadic sign ((m <<< (e - g).toNat) % (n <<< (f - g).toNat)) g
  | .finite .., .infinity _ => x
  | .zero _, .finite .. => x
  | .zero _, .infinity _ => x
  | _, _ => nan

end ScriptKit.Number
