import StartOrder.Document
import StartOrder.Text.Numeral
import StartOrder.Text.Reader

/-!
# Reading JSON

The text is cut into tokens and the tokens are read with a stack of the lists and tables that
are open, so that nesting costs no recursion. A whole number stays exact within 64 bits, and
any other number is computed in binary from the leading digits that 64 bits hold, multiplied or
divided once by a power of ten. Lists and tables more than 127 deep have no reading.

## Main definitions

* `Json.Token`, `Json.tokens?`: tokens
* `Json.number`: the value of a number
* `Json.parse?`: the document that a text denotes
-/

namespace StartOrder.Json

/-- A token. A text is missing when one of its escapes is half of a surrogate pair. -/
inductive Token where
  | openList
  | closeList
  | openTable
  | closeTable
  | colon
  | comma
  | text (s : Option String)
  | scalar (d : Document)

/-! ## Texts -/

/-- The characters of code points and surrogate pairs, if no half of a pair stands alone. -/
def characters? : List Nat → Option (List Char)
  | [] => some []
  | h :: l :: rest =>
    if 0xD800 ≤ h ∧ h < 0xDC00 then
      if 0xDC00 ≤ l ∧ l < 0xE000 then
        (characters? rest).map
          (Char.ofNat (0x10000 + (h - 0xD800) * 0x400 + (l - 0xDC00)) :: ·)
      else none
    else if 0xDC00 ≤ h ∧ h < 0xE000 then none
    else (characters? (l :: rest)).map (Char.ofNat h :: ·)
  | [h] => if 0xD800 ≤ h ∧ h < 0xE000 then none else some [Char.ofNat h]

/-- The character that a backslash and a letter stand for. -/
def escape? : Char → Option Char
  | '"' => some '"'
  | '\\' => some '\\'
  | '/' => some '/'
  | 'b' => some '\x08'
  | 'f' => some '\x0c'
  | 'n' => some '\n'
  | 'r' => some '\r'
  | 't' => some '\t'
  | _ => none

/-- The code points of a text behind its opening quote, in reverse, and what follows it. -/
def quoted? (acc : List Nat) : Text.Reader (List Nat)
  | [] => none
  | '"' :: r => some (acc, r)
  | '\\' :: 'u' :: a :: b :: c :: d :: r => do
    let n ← Text.hex? [a, b, c, d]
    quoted? (n :: acc) r
  | '\\' :: c :: r => do
    let e ← escape? c
    quoted? (e.toNat :: acc) r
  | c :: r => if c.toNat < 0x20 then none else quoted? (c.toNat :: acc) r

theorem advances_quoted? (acc : List Nat) : (quoted? acc).Advances := by
  refine ⟨fun {s ns r} h => ?_⟩
  fun_induction quoted? acc s with
  | case1 => cases h
  | case2 =>
    cases h
    exact Nat.lt_succ_self _
  | case3 _ _ _ _ _ _ ih =>
    obtain ⟨n, -, h⟩ := Option.bind_eq_some_iff.1 h
    have := ih n h
    simp only [List.length_cons]
    omega
  | case4 _ _ _ _ ih =>
    obtain ⟨e, -, h⟩ := Option.bind_eq_some_iff.1 h
    have := ih e h
    simp only [List.length_cons]
    omega
  | case5 => cases h
  | case6 => next ih => exact Nat.lt_succ_of_lt (ih h)

/-! ## Numbers -/

/-- The greatest whole number that a significand may reach. -/
def significandLimit : Nat := 1 <<< 64

/-- The significand of the digits before the point: as many as stay below the limit, and the
number of digits that are left out. -/
def wholeDigits (digits : List Char) : Nat × Nat :=
  digits.foldl (fun (n, skipped) c =>
    let m := 10 * n + (c.toNat - '0'.toNat)
    if skipped = 0 ∧ m < significandLimit then (m, 0) else (n, skipped + 1)) (0, 0)

/-- The significand with the digits behind the point added: as many as stay below the limit,
and the number of digits that were added. -/
def fractionDigits (n : Nat) (digits : List Char) : Nat × Nat :=
  let (m, used, _) := digits.foldl (fun (n, used, full) c =>
    let m := 10 * n + (c.toNat - '0'.toNat)
    if !full && m < significandLimit then (m, used + 1, false) else (n, used, true))
    (n, 0, false)
  (m, used)

/-- The power of ten, rounded. -/
def powerOfTen (n : Nat) : Binary64 := Binary64.ofDecimal false 1 n

/-- A number divided by a power of ten, in steps of at most 308 digits. -/
def dividedByPower (x : Binary64) (n : Nat) : Binary64 :=
  if n ≤ 308 then x.div (powerOfTen n)
  else if x.isZero then x
  else dividedByPower (x.div (powerOfTen 308)) (n - 308)
termination_by n
decreasing_by omega

/-- The number `n * 10 ^ exponent`, unless it is too large. -/
def scaled (negative : Bool) (n : Nat) (exponent : Int) : Document :=
  let x := Binary64.ofDecimal negative n 0
  if exponent < 0 then .float (dividedByPower x exponent.natAbs)
  else if 308 < exponent then (if n = 0 then .float x else .unreadable)
  else
    let y := x.mul (powerOfTen exponent.natAbs)
    if y.isInfinite then .unreadable else .float y

/-- The value of a number with a sign, digits, digits behind a point and an exponent. -/
def number (negative : Bool) (whole : List Char) (fraction : Option (List Char))
    (exponent : Option Int) : Document :=
  let (n, skipped) := wholeDigits whole
  match fraction, exponent with
  | none, none =>
    if skipped ≠ 0 then scaled negative n skipped
    else if !negative then .integer n
    else if n = 0 ∨ 1 <<< 63 < n then .float (Binary64.ofDecimal true n 0)
    else .integer (-n)
  | _, _ =>
    let (n, used) := fractionDigits n (fraction.getD [])
    scaled negative n (skipped - used + exponent.getD 0)

/-- The digits before the point. They do not begin with a zero unless it is the only one. -/
def whole? : Text.Reader (List Char) := fun s =>
  (Text.run? Char.isDigit s).filter fun (ds, _) => ds.length == 1 || ds.head? != some '0'

/-- The digits behind a point, if there is one. -/
def fraction? : Text.Reader (Option (List Char))
  | '.' :: r => (Text.run? Char.isDigit).map some r
  | r => some (none, r)

/-- The whole number that digits behind a sign denote. -/
def magnitude (negative : Bool) (ds : List Char) : Int :=
  let n : Int := Nat.ofDigitChars 10 ds 0
  if negative then -n else n

/-- The exponent, if there is one. -/
def exponent? : Text.Reader (Option Int)
  | 'e' :: r | 'E' :: r =>
    (Text.run? Char.isDigit).map (fun ds => some (magnitude (Text.sign r).1 ds)) (Text.sign r).2
  | r => some (none, r)

/-- The digits of a number with its point and exponent, behind the sign. -/
def unsigned? (negative : Bool) : Text.Reader Document := fun s => do
  let (whole, s) ← whole? s
  let (fraction, s) ← fraction? s
  let (exponent, s) ← exponent? s
  return (number negative whole fraction exponent, s)

/-- A number and what follows it. -/
def number? : Text.Reader Document
  | '-' :: r => unsigned? true r
  | r => unsigned? false r

theorem advances_whole? : Text.Reader.Advances whole? := by
  refine ⟨fun {s ds r} h => ?_⟩
  exact (Text.advances_run? _).length_lt (Option.filter_eq_some_iff.1 h).1

theorem length_of_fraction? {s r : List Char} {ds : Option (List Char)}
    (h : fraction? s = some (ds, r)) : r.length ≤ s.length := by
  unfold fraction? at h
  split at h
  · exact Nat.le_of_lt (Nat.lt_succ_of_lt (((Text.advances_run? _).map some).length_lt h))
  · cases h
    exact Nat.le_refl _

theorem length_of_exponent? {s r : List Char} {n : Option Int}
    (h : exponent? s = some (n, r)) : r.length ≤ s.length := by
  unfold exponent? at h
  split at h
  · next q =>
    have := ((Text.advances_run? _).map _).length_lt h
    have := Text.length_sign_le q
    simp only [List.length_cons]
    omega
  · next q =>
    have := ((Text.advances_run? _).map _).length_lt h
    have := Text.length_sign_le q
    simp only [List.length_cons]
    omega
  · cases h
    exact Nat.le_refl _

theorem advances_unsigned? (negative : Bool) : (unsigned? negative).Advances := by
  refine ⟨fun {s d r} h => ?_⟩
  simp only [unsigned?, Option.bind_eq_bind, Option.bind_eq_some_iff, Option.pure_def,
    Option.some.injEq, Prod.mk.injEq, Prod.exists] at h
  obtain ⟨_, _, hw, _, _, hf, _, _, he, -, rfl⟩ := h
  have := advances_whole?.length_lt hw
  have := length_of_fraction? hf
  have := length_of_exponent? he
  omega

theorem advances_number? : Text.Reader.Advances number? := by
  refine ⟨fun {s d r} h => ?_⟩
  unfold number? at h
  split at h
  · exact Nat.lt_succ_of_lt ((advances_unsigned? _).length_lt h)
  · exact (advances_unsigned? _).length_lt h

/-! ## Tokens -/

/-- A character that may stand between tokens. -/
def isSpace (c : Char) : Bool :=
  c == ' ' || c == '\t' || c == '\n' || c == '\r'

/-- The token that comes first and what follows it. -/
def token? : Text.Reader Token
  | [] => none
  | '[' :: r => some (.openList, r)
  | ']' :: r => some (.closeList, r)
  | '{' :: r => some (.openTable, r)
  | '}' :: r => some (.closeTable, r)
  | ':' :: r => some (.colon, r)
  | ',' :: r => some (.comma, r)
  | '"' :: r =>
    (quoted? []).map (fun acc => .text ((characters? acc.reverse).map String.ofList)) r
  | 't' :: 'r' :: 'u' :: 'e' :: r => some (.scalar (.boolean true), r)
  | 'f' :: 'a' :: 'l' :: 's' :: 'e' :: r => some (.scalar (.boolean false), r)
  | 'n' :: 'u' :: 'l' :: 'l' :: r => some (.scalar .null, r)
  | s => number?.map .scalar s

theorem advances_token? : Text.Reader.Advances token? := by
  refine ⟨fun {s k r} h => ?_⟩
  unfold token? at h
  split at h
  case h_8 => exact Nat.lt_succ_of_lt (((advances_quoted? []).map _).length_lt h)
  case h_12 => exact (advances_number?.map _).length_lt h
  all_goals cases h
  all_goals simp only [List.length_cons]
  all_goals omega

/-- The tokens of a text, behind those already found. -/
def tokens? (acc : List Token) (s : List Char) : Option (List Token) :=
  if (s.dropWhile isSpace).isEmpty then some acc.reverse
  else
    match h : token? (s.dropWhile isSpace) with
    | none => none
    | some (k, r) =>
      have : r.length < s.length :=
        Nat.lt_of_lt_of_le (advances_token?.length_lt h) (Text.length_dropWhile_le _ _)
      tokens? (k :: acc) r
termination_by s.length

/-! ## Documents -/

/-- A list or table that is open, with what it holds so far in reverse. A table may wait for
the value of a name. At the bottom lies the document itself. -/
inductive Frame where
  | root (d : Option Document)
  | list (items : List Document)
  | table (entries : List (Option String × Document)) (name : Option (Option String))

/-- What may come next. -/
inductive Mode where
  | value
  | valueOrEnd
  | nameOrEnd
  | name
  | colon
  | next
deriving DecidableEq

/-- How deep lists and tables may be nested. -/
def depthLimit : Nat := 127

/-- Put a finished value into the list or table that is open. -/
def deliver (d : Document) : List Frame → List Frame
  | .list items :: fs => .list (d :: items) :: fs
  | .table es (some n) :: fs => .table ((n, d) :: es) none :: fs
  | .root _ :: fs => .root (some d) :: fs
  | fs => fs

/-- Close a list or table that stands on `below`. -/
def close (d : Document) (below : List Frame) : List Frame :=
  deliver (if (below.drop depthLimit).isEmpty then d else .unreadable) below

/-- The table of entries in reverse, if every name has a reading. -/
def tableOf (es : List (Option String × Document)) : Document :=
  match es.reverse.mapM fun (n, d) => n.map (·, d) with
  | some es => .table es
  | none => .unreadable

/-- Read tokens onto the open lists and tables. -/
def run (mode : Mode) (open_ : List Frame) : List Token → Option Document
  | [] =>
    match mode, open_ with
    | .next, [.root (some d)] => some d
    | _, _ => none
  | t :: ts =>
    match mode, t, open_ with
    | .value, .openList, fs | .valueOrEnd, .openList, fs =>
      run .valueOrEnd (.list [] :: fs) ts
    | .value, .openTable, fs | .valueOrEnd, .openTable, fs =>
      run .nameOrEnd (.table [] none :: fs) ts
    | .value, .scalar d, fs | .valueOrEnd, .scalar d, fs => run .next (deliver d fs) ts
    | .value, .text s, fs | .valueOrEnd, .text s, fs =>
      run .next (deliver ((s.map Document.text).getD .unreadable) fs) ts
    | .valueOrEnd, .closeList, .list items :: fs | .next, .closeList, .list items :: fs =>
      run .next (close (.list items.reverse) fs) ts
    | .nameOrEnd, .closeTable, .table es _ :: fs | .next, .closeTable, .table es _ :: fs =>
      run .next (close (tableOf es) fs) ts
    | .nameOrEnd, .text s, .table es _ :: fs | .name, .text s, .table es _ :: fs =>
      run .colon (.table es (some s) :: fs) ts
    | .colon, .colon, fs => run .value fs ts
    | .next, .comma, .list items :: fs => run .value (.list items :: fs) ts
    | .next, .comma, .table es n :: fs => run .name (.table es n :: fs) ts
    | _, _, _ => none

/-- The document that a text denotes. -/
def parse? (text : String) : Option Document := do
  let ts ← tokens? [] text.toList
  run .value [.root none] ts

end StartOrder.Json
