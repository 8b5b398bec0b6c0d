/-!
# Numerals

Whole numbers written in decimal or hexadecimal digits, and their readers. A decimal numeral has at
least one digit and nothing but digits after an optional sign, so blanks, underscores and fractions
are refused.

## Main definitions

* `natural?`: digits alone
* `unsigned?`: digits after an optional plus, below a limit
* `signed64?`: digits after an optional sign, within 64 bits
* `hex?`: hexadecimal digits

## Main results

* `natural?_repr`: the decimal text of a number reads back
-/

namespace StartOrder.Text

/-- The number a run of decimal digits denotes. -/
def natural? (s : List Char) : Option Nat :=
  if s ≠ [] ∧ s.all Char.isDigit then some (Nat.ofDigitChars 10 s 0) else none

/-- The number below `limit` that digits denote after an optional plus. -/
def unsigned? (limit : Nat) (s : List Char) : Option Nat :=
  let digits := match s with
    | '+' :: t => t
    | t => t
  (natural? digits).filter (· < limit)

/-- The number of 64 bits that digits denote after an optional sign. -/
def signed64? (s : List Char) : Option Int :=
  match s with
  | '-' :: t => ((natural? t).filter (· ≤ 1 <<< 63)).map fun n => -(n : Int)
  | _ => (unsigned? (1 <<< 63) s).map Int.ofNat

/-- The value of a hexadecimal digit. -/
def hexDigit? (c : Char) : Option Nat :=
  if c.isDigit then some (c.toNat - '0'.toNat)
  else if 'a' ≤ c ∧ c ≤ 'f' then some (c.toNat - 'a'.toNat + 10)
  else if 'A' ≤ c ∧ c ≤ 'F' then some (c.toNat - 'A'.toNat + 10)
  else none

/-- The value of hexadecimal digits. -/
def hex? (cs : List Char) : Option Nat :=
  cs.foldlM (fun n c => (hexDigit? c).map (16 * n + ·)) 0

/-- The decimal text of a number reads back. -/
theorem natural?_repr (n : Nat) : natural? n.repr.toList = some n := by
  have digits : (Nat.toDigits 10 n).all Char.isDigit :=
    List.all_eq_true.2 fun _ hc => Nat.isDigit_of_mem_toDigits (by decide) (by decide) hc
  simp [natural?, Nat.toList_repr, Nat.toDigits_ne_nil, digits, Nat.ofDigitChars_ten_toDigits]

/-- A decimal text below the limit reads back under the limit. -/
theorem unsigned?_repr {limit n : Nat} (h : n < limit) :
    unsigned? limit n.repr.toList = some n := by
  have hn := natural?_repr n
  unfold unsigned?
  split
  · next t ht =>
    rw [ht] at hn
    simp [natural?, Char.isDigit] at hn
  · simp [natural?_repr n, h, -Nat.toList_repr]

end StartOrder.Text
