import StartOrder.Binary64

/-!
# The shortest decimal text of a number

A number is written with the fewest digits that read back as the same number, and of those with
the digits nearest to it; halfway between two neighbours the digits are rounded up. The text is
positional however large or small the number is: no exponent, no fraction that is zero, and a
minus sign even for the negative zero.

## Main definitions

* `Binary64.shortest`: the digits and the power of ten
* `Binary64.render`: the text
-/

namespace StartOrder.Binary64

/-- Whether `d * 10 ^ k` reads as the number `m * 2 ^ q`. The comparison is made at the middles
between neighbours, which belong to the number when `m` is even. -/
def readsAs (m : Nat) (q : Int) (d : Nat) (k : Int) : Bool :=
  -- everything in units of `2 ^ (q - 2) / 10 ^ |k|` or `2 ^ (q - 2)`
  let power := Nat.pow 10 k.natAbs
  let (value, unit) := if k < 0 then (d, power) else (d * power, 1)
  let (num, den) := scale value 1 (q - 2)
  let low := if m = 1 <<< 52 ∧ minExponent < q then 4 * m - 1 else 4 * m - 2
  let high := 4 * m + 2
  if m % 2 = 0 then low * unit * den ≤ num && num ≤ high * unit * den
  else low * unit * den < num && num < high * unit * den

/-- The decimal with exponent `k` nearest to `m * 2 ^ q` that reads back, if a neighbour on
that grid does. Of two that are equally near it is the greater. -/
def onGrid? (m : Nat) (q : Int) (k : Int) : Option Nat :=
  let (n, d) := scale m 1 (-q)
  let (n, d) := if k < 0 then (n * Nat.pow 10 k.natAbs, d) else (n, d * Nat.pow 10 k.natAbs)
  let below := n / d
  let nearest := (2 * n + d) / (2 * d)
  let other := if nearest = below then below + 1 else below
  if readsAs m q nearest k then some nearest
  else if readsAs m q other k then some other
  else none

/-- The power of ten at the first digit of `m * 2 ^ q`. -/
def leadingExponent (m : Nat) (q : Int) : Int :=
  let (n, d) := scale m 1 (-q)
  if d ≤ n then (Nat.toDigits 10 (n / d)).length - 1
  else -((Nat.toDigits 10 ((d - 1) / n)).length : Int)

/-- The fewest digits that read back as `m * 2 ^ q`, with their power of ten. -/
def shortest (m : Nat) (q : Int) : Nat × Int :=
  let e := leadingExponent m q
  let grids := (List.range 18).map fun (i : Nat) => e - i
  ((grids.filterMap fun k => (onGrid? m q k).map (·, k)).head?).getD (0, 0)

/-- Digits with a point `places` places from the right, and no zeros at the end behind it. -/
def positional (digits : List Char) (places : Nat) : List Char :=
  let padded := List.replicate (places + 1 - digits.length) '0' ++ digits
  let whole := padded.take (padded.length - places)
  let fraction := ((padded.drop (padded.length - places)).reverse.dropWhile (· == '0')).reverse
  if fraction.isEmpty then whole else whole ++ '.' :: fraction

/-- The text of a number. -/
def render : Binary64 → String
  | nan => "NaN"
  | infinite negative => if negative then "-inf" else "inf"
  | finite negative m q =>
    let (d, k) := if m = 0 then (0, 0) else shortest m q
    let digits := Nat.toDigits 10 d
    let text := if k < 0 then positional digits k.natAbs
      else digits ++ List.replicate k.natAbs '0'
    String.ofList (if negative then '-' :: text else text)

end StartOrder.Binary64
