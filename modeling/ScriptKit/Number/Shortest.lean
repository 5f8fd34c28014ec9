/-!
# The shortest decimal that reads back

Among the decimals that round to a given double, `shortest` picks one with the fewest digits, and
of those the one nearest to the double. The search works on the dyadic form `m · 2^e`, with
`0 < m`, in exact natural arithmetic: for one power of ten after another, from coarse to fine, it
tests the two multiples of that power around the value.
-/

set_option autoImplicit false

namespace ScriptKit.Number

/-- A decimal number `digits · 10^exponent`. -/
structure Decimal where
  digits : Nat
  exponent : Int
deriving DecidableEq, Repr, Inhabited

/-- The mantissa of a double just above a power of two. Below such a double the next one is only
half as far away as above it. -/
def leastNormalMantissa : Nat := 1 <<< 52

/-- The exponent of the doubles nearest to zero. -/
def leastExponent : Int := -1074

/-- The ends of the interval of reals that round to `m · 2^e`, in quarters of `2^e`. -/
def roundingInterval (m : Nat) (e : Int) : Nat × Nat :=
  let below := if m = leastNormalMantissa ∧ leastExponent < e then 1 else 2
  (4 * m - below, 4 * m + 2)

/-- A multiple `d · 10^k` is compared with `x` quarters of `2^e` by comparing `d * a` with `x * b`,
where `(a, b) = scales e k`. -/
def scales (e k : Int) : Nat × Nat :=
  (Nat.pow 10 k.toNat <<< (2 - e).toNat, Nat.pow 10 (-k).toNat <<< (e - 2).toNat)

/-- Does `d · 10^k` round to `m · 2^e`? The ends of the interval do so exactly if `m` is even. -/
def readsBack (m : Nat) (e k : Int) (d : Nat) : Bool :=
  let (low, high) := roundingInterval m e
  let (a, b) := scales e k
  if m % 2 = 0 then low * b ≤ d * a && d * a ≤ high * b
  else low * b < d * a && d * a < high * b

/-- The multiple of `10^k` that reads back as `m · 2^e` and is nearest to it, if there is one. Of
two that are equally near it is the even one. -/
def nearestOnGrid (m : Nat) (e k : Int) : Option Nat :=
  let (a, b) := scales e k
  let value := 4 * m * b
  let d := value / a
  match readsBack m e k d, readsBack m e k (d + 1) with
  | false, false => none
  | true, false => some d
  | false, true => some (d + 1)
  | true, true =>
    let down := value - d * a
    let up := (d + 1) * a - value
    if down < up || (down = up && d % 2 = 0) then some d else some (d + 1)

/-- Try the grids of `10^k`, `10^(k-1)` and so on, `rounds` of them, and stop at the first that
holds a decimal that reads back. -/
def searchGrids (m : Nat) (e : Int) : Nat → Int → Option Decimal
  | 0, _ => none
  | rounds + 1, k =>
    match nearestOnGrid m e k with
    | some d => some ⟨d, k⟩
    | none => searchGrids m e rounds (k - 1)

/-- An exponent `k` with `m · 2^e < 10^k`, at most two above the least. The fraction is just above
the decimal logarithm of two. -/
def gridAbove (m : Nat) (e : Int) : Int :=
  (m.log2 + 1 + e) * 30103 / 100000 + 1

/-- The whole decimal expansion of `m · 2^e`. -/
def expansion (m : Nat) (e : Int) : Decimal :=
  if 0 ≤ e then ⟨m <<< e.toNat, 0⟩ else ⟨m * Nat.pow 5 (-e).toNat, e⟩

/-- A decimal with the fewest digits that rounds to the double `m · 2^e`, and the nearest to it
of those. Seventeen digits are enough for every double, so the grids tried are enough. -/
def shortest (m : Nat) (e : Int) : Decimal :=
  (searchGrids m e 20 (gridAbove m e)).getD (expansion m e)

end ScriptKit.Number
