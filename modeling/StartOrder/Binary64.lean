/-!
# Binary numbers of 64 bits

The numbers of the standard IEEE 754 format `binary64`, as a sign, a whole number below 2^53 and
a power of two, with exact rounding to the nearest.

## Main definitions

* `Binary64`: the numbers, the infinities and the value that is no number
* `Binary64.ofRatio`: the nearest number of a fraction
* `Binary64.ofDecimal`: the nearest number of a decimal fraction
* `Binary64.mul`, `Binary64.div`: rounded product and quotient of magnitudes
-/

namespace StartOrder

/-- A number of the format. The magnitude of a finite number is `m * 2 ^ q`. -/
inductive Binary64 where
  | finite (negative : Bool) (m : Nat) (q : Int)
  | infinite (negative : Bool)
  | nan
deriving DecidableEq, Repr

namespace Binary64

/-- The least exponent. -/
def minExponent : Int := -1074

/-- The greatest exponent. -/
def maxExponent : Int := 971

/-- The whole number nearest to `n / d`; of two nearest ones the even one. -/
def roundDiv (n d : Nat) : Nat :=
  let k := n / d
  let r := n % d
  if 2 * r < d then k else if d < 2 * r then k + 1 else k + k % 2

/-- `n / d` divided by `2 ^ q`, as a fraction. -/
def scale (n d : Nat) (q : Int) : Nat × Nat :=
  if q < 0 then (n <<< q.natAbs, d) else (n, d <<< q.natAbs)

/-- The number nearest to the fraction `n / d`. -/
def ofRatio (negative : Bool) (n d : Nat) : Binary64 :=
  if n = 0 then finite negative 0 minExponent
  else
    let guess : Int := Nat.log2 n - Nat.log2 d - 52
    let (n₁, d₁) := scale n d guess
    let q := max minExponent (if n₁ < d₁ <<< 52 then guess - 1 else guess)
    let (n₂, d₂) := scale n d q
    let m := roundDiv n₂ d₂
    let (m, q) := if m = 1 <<< 53 then (1 <<< 52, q + 1) else (m, q)
    if maxExponent < q then infinite negative else finite negative m q

/-- The number nearest to `digits * 10 ^ exponent`. Exponents far outside the format need no
power of ten. -/
def ofDecimal (negative : Bool) (digits : Nat) (exponent : Int) : Binary64 :=
  let magnitude : Int := (Nat.toDigits 10 digits).length + exponent
  if digits = 0 ∨ magnitude < -400 then finite negative 0 minExponent
  else if 400 < magnitude then infinite negative
  else if exponent < 0 then ofRatio negative digits (Nat.pow 10 exponent.natAbs)
  else ofRatio negative (digits * Nat.pow 10 exponent.natAbs) 1

/-- The rounded product of two magnitudes, with the sign of the first. -/
def mul : Binary64 → Binary64 → Binary64
  | finite s m q, finite _ n p =>
    let (num, den) := scale (m * n) 1 (-(q + p))
    ofRatio s num den
  | infinite s, _ => infinite s
  | finite s _ _, infinite _ => infinite s
  | _, _ => nan

/-- The rounded quotient of two finite magnitudes, with the sign of the first. -/
def div : Binary64 → Binary64 → Binary64
  | finite s m q, finite _ n p =>
    if n = 0 then nan
    else
      let (num, den) := scale m n (p - q)
      ofRatio s num den
  | _, _ => nan

/-- Whether a number is zero, of either sign. -/
def isZero : Binary64 → Bool
  | finite _ m _ => m == 0
  | _ => false

/-- Whether a number is an infinity. -/
def isInfinite : Binary64 → Bool
  | infinite _ => true
  | _ => false

end Binary64

end StartOrder
