import StartOrder.Document
import StartOrder.Document.Json

/-!
# Texts and numbers in TOML

The values that hold no other values. A reader gives the value and the text that follows it;
whatever may not follow a value is refused where the value is used. Every reader of a value
advances.

## Main definitions

* `Toml.basicText?`, `Toml.literalText?`: texts on one line
* `Toml.longBasicText?`, `Toml.longLiteralText?`: texts over several lines
* `Toml.number?`: numbers

## Main results

* `Toml.advances_text?`, `Toml.advances_number?`: the readers of values advance
-/

namespace StartOrder.Toml

/-- A character that may stand in a text: a tab or any character that is no ASCII control. -/
def isTextChar (c : Char) : Bool :=
  c == '\t' || (0x20 ≤ c.toNat && c.toNat != 0x7F)

/-- A space or a tab. -/
def isSpace (c : Char) : Bool :=
  c == ' ' || c == '\t'

/-! ## Texts -/

/-- The character with the code point that hexadecimal digits denote. -/
def codePoint? (digits : List Char) : Option Char := do
  let n ← Text.hex? digits
  if h : n.isValidChar then some (Char.ofNatAux n h) else none

/-- The character that a backslash and a letter stand for. -/
def escape? : Char → Option Char
  | 'b' => some '\x08'
  | 't' => some '\t'
  | 'n' => some '\n'
  | 'f' => some '\x0c'
  | 'r' => some '\r'
  | '"' => some '"'
  | '\\' => some '\\'
  | _ => none

/-- The characters of a text behind its opening quote, put behind those already read. -/
def basicText? (acc : List Char) : Text.Reader String
  | [] => none
  | '"' :: r => some (String.ofList acc.reverse, r)
  | '\\' :: 'u' :: a :: b :: c :: d :: r => do
    let x ← codePoint? [a, b, c, d]
    basicText? (x :: acc) r
  | '\\' :: 'U' :: a :: b :: c :: d :: e :: f :: g :: h :: r => do
    let x ← codePoint? [a, b, c, d, e, f, g, h]
    basicText? (x :: acc) r
  | '\\' :: c :: r => do
    let x ← escape? c
    basicText? (x :: acc) r
  | c :: r => if isTextChar c then basicText? (c :: acc) r else none

/-- The characters of a text without escapes behind its opening quote. -/
def literalText? (acc : List Char) : Text.Reader String
  | [] => none
  | '\'' :: r => some (String.ofList acc.reverse, r)
  | c :: r => if isTextChar c then literalText? (c :: acc) r else none

/-- What has been read of a text over several lines. -/
inductive LineState where
  /-- Characters count. -/
  | plain
  /-- Behind a backslash and spaces: the line has to end. -/
  | ending
  /-- Behind an escaped line end: spaces and line ends do not count. -/
  | margin
deriving DecidableEq

/-- The text that three quotes close. Up to two more quotes belong to the text. -/
def closed (quote : Char) (acc rest : List Char) : String × List Char :=
  let extra := (rest.takeWhile (· == quote)).take 2
  (String.ofList (acc.reverse ++ extra), rest.drop extra.length)

/-- The characters of a text over several lines behind its opening quotes. -/
def longBasicText? (state : LineState) (acc : List Char) : Text.Reader String
  | [] => none
  | '\r' :: '\n' :: r =>
    if state = .plain then longBasicText? .plain ('\n' :: acc) r else longBasicText? .margin acc r
  | '\n' :: r =>
    if state = .plain then longBasicText? .plain ('\n' :: acc) r else longBasicText? .margin acc r
  | ' ' :: r =>
    if state = .plain then longBasicText? .plain (' ' :: acc) r else longBasicText? state acc r
  | '\t' :: r =>
    if state = .plain then longBasicText? .plain ('\t' :: acc) r else longBasicText? state acc r
  | '"' :: '"' :: '"' :: r => if state = .ending then none else some (closed '"' acc r)
  | '\\' :: 'u' :: a :: b :: c :: d :: r => do
    if state = .ending then none
    let x ← codePoint? [a, b, c, d]
    longBasicText? .plain (x :: acc) r
  | '\\' :: 'U' :: a :: b :: c :: d :: e :: f :: g :: h :: r => do
    if state = .ending then none
    let x ← codePoint? [a, b, c, d, e, f, g, h]
    longBasicText? .plain (x :: acc) r
  | '\\' :: c :: r =>
    if state = .ending then none
    else match escape? c with
      | some x => longBasicText? .plain (x :: acc) r
      | none =>
        if c = '\n' then longBasicText? .margin acc r
        else if isSpace c then longBasicText? .ending acc r
        else if c = '\r' ∧ r.head? = some '\n' then longBasicText? .ending acc r
        else none
  | c :: r =>
    if state ≠ .ending ∧ isTextChar c then longBasicText? .plain (c :: acc) r else none

/-- The characters of a text over several lines without escapes. -/
def longLiteralText? (acc : List Char) : Text.Reader String
  | [] => none
  | '\'' :: '\'' :: '\'' :: r => some (closed '\'' acc r)
  | '\r' :: '\n' :: r => longLiteralText? ('\n' :: acc) r
  | '\n' :: r => longLiteralText? ('\n' :: acc) r
  | c :: r => if isTextChar c then longLiteralText? (c :: acc) r else none

/-- A text without the line end it begins with. -/
def dropLineEnd : List Char → List Char
  | '\n' :: r => r
  | '\r' :: '\n' :: r => r
  | s => s

/-- A text on one line, in quotes of either kind. -/
def shortText? : Text.Reader String
  | '"' :: r => basicText? [] r
  | '\'' :: r => literalText? [] r
  | _ => none

/-- A text in quotes of any kind. -/
def text? : Text.Reader String
  | '"' :: '"' :: '"' :: r => longBasicText? .plain [] (dropLineEnd r)
  | '\'' :: '\'' :: '\'' :: r => longLiteralText? [] (dropLineEnd r)
  | s => shortText? s

theorem advances_basicText? (acc : List Char) : (basicText? acc).Advances := by
  refine ⟨fun {s t r} h => ?_⟩
  fun_induction basicText? acc s with
  | case1 => cases h
  | case2 =>
    cases h
    exact Nat.lt_succ_self _
  | case3 _ _ _ _ _ _ ih | case4 _ _ _ _ _ _ _ _ _ _ ih | case5 _ _ _ _ _ ih =>
    obtain ⟨x, -, h⟩ := Option.bind_eq_some_iff.1 h
    have := ih x h
    simp only [List.length_cons]
    omega
  | case6 => next ih => exact Nat.lt_succ_of_lt (ih h)
  | case7 => cases h

theorem advances_literalText? (acc : List Char) : (literalText? acc).Advances := by
  refine ⟨fun {s t r} h => ?_⟩
  fun_induction literalText? acc s with
  | case1 => cases h
  | case2 =>
    cases h
    exact Nat.lt_succ_self _
  | case3 _ _ _ _ _ ih => exact Nat.lt_succ_of_lt (ih h)
  | case4 => cases h

theorem length_closed_le (quote : Char) (acc rest : List Char) :
    (closed quote acc rest).2.length ≤ rest.length := by
  simp [closed]

theorem advances_longBasicText? (state : LineState) (acc : List Char) :
    (longBasicText? state acc).Advances := by
  refine ⟨fun {s t r} h => ?_⟩
  fun_induction longBasicText? state acc s <;> try simp only [List.length_cons]
  all_goals grind [Option.bind_eq_some_iff, length_closed_le]

theorem advances_longLiteralText? (acc : List Char) : (longLiteralText? acc).Advances := by
  refine ⟨fun {s t r} h => ?_⟩
  fun_induction longLiteralText? acc s <;> grind [length_closed_le]

theorem length_dropLineEnd_le (s : List Char) : (dropLineEnd s).length ≤ s.length := by
  unfold dropLineEnd
  split
  · exact Nat.le_succ _
  · simp only [List.length_cons]
    omega
  · exact Nat.le_refl _

theorem advances_shortText? : Text.Reader.Advances shortText? := by
  refine ⟨fun {s t r} h => ?_⟩
  unfold shortText? at h
  split at h
  · exact Nat.lt_succ_of_lt ((advances_basicText? _).length_lt h)
  · exact Nat.lt_succ_of_lt ((advances_literalText? _).length_lt h)
  · cases h

theorem advances_text? : Text.Reader.Advances text? := by
  refine ⟨fun {s t r} h => ?_⟩
  unfold text? at h
  split at h
  · next q =>
    have := (advances_longBasicText? _ _).length_lt h
    have := length_dropLineEnd_le q
    simp only [List.length_cons]
    omega
  · next q =>
    have := (advances_longLiteralText? _).length_lt h
    have := length_dropLineEnd_le q
    simp only [List.length_cons]
    omega
  · exact advances_shortText?.length_lt h

/-! ## Numbers -/

/-- Digits with single underscores between them, and what follows. -/
def digits (isDigit : Char → Bool) : List Char → List Char × List Char
  | '_' :: c :: r =>
    if isDigit c then
      let (ds, q) := digits isDigit r
      (c :: ds, q)
    else ([], '_' :: c :: r)
  | c :: r =>
    if isDigit c then
      let (ds, q) := digits isDigit r
      (c :: ds, q)
    else ([], c :: r)
  | [] => ([], [])

/-- One digit or more. -/
def digits? (isDigit : Char → Bool) : Text.Reader (List Char)
  | [] => none
  | c :: r =>
    if isDigit c then
      let (ds, q) := digits isDigit r
      some (c :: ds, q)
    else none

/-- The digits of a whole number, which do not begin with a zero unless it is the only one. -/
def wholeDigits? : Text.Reader (List Char)
  | '0' :: r => some (['0'], r)
  | s => digits? Char.isDigit s

/-- A whole number of 64 bits with a sign. -/
def whole? (negative : Bool) (n : Nat) : Option Document :=
  if negative then (if n ≤ 1 <<< 63 then some (.integer (-n)) else none)
  else if n < 1 <<< 63 then some (.integer n) else none

/-- A whole number behind a prefix for its base. -/
def based? (base : Nat) : Text.Reader Document := fun s => do
  let isDigit (c : Char) : Bool := (Text.hexDigit? c).any (· < base)
  let (ds, r) ← digits? isDigit s
  let n := ds.foldl (fun n c => base * n + (Text.hexDigit? c).getD 0) 0
  return (← whole? false n, r)

/-- The digits behind a point, if there is one. -/
def fraction? : Text.Reader (Option (List Char))
  | '.' :: r => (digits? Char.isDigit).map some r
  | r => some (none, r)

/-- The exponent, if there is one. -/
def exponent? : Text.Reader (Option Int)
  | 'e' :: r | 'E' :: r =>
    (digits? Char.isDigit).map (fun ds => some (Json.magnitude (Text.sign r).1 ds))
      (Text.sign r).2
  | r => some (none, r)

/-- A number in decimal digits behind its sign: whole, or binary when it has a fraction or an
exponent. A binary number may only be infinite below zero. -/
def decimal? (negative : Bool) : Text.Reader Document := fun s => do
  let (ds, r) ← wholeDigits? s
  let (fs, r) ← fraction? r
  let (e, r) ← exponent? r
  if fs.isNone && e.isNone then
    return (← whole? negative (Nat.ofDigitChars 10 ds 0), r)
  let fs := fs.getD []
  let x := Binary64.ofDecimal negative (Nat.ofDigitChars 10 (ds ++ fs) 0)
    (e.getD 0 - fs.length)
  guard (x ≠ .infinite false)
  return (.float x, r)

/-- A number behind its sign. -/
def unsigned? (negative : Bool) : Text.Reader Document
  | 'i' :: 'n' :: 'f' :: r => some (.float (.infinite negative), r)
  | 'n' :: 'a' :: 'n' :: r => some (.float .nan, r)
  | r => decimal? negative r

/-- A number. -/
def number? : Text.Reader Document
  | '0' :: 'x' :: r => based? 16 r
  | '0' :: 'o' :: r => based? 8 r
  | '0' :: 'b' :: r => based? 2 r
  | s => unsigned? (Text.sign s).1 (Text.sign s).2

theorem length_digits_le (isDigit : Char → Bool) (s : List Char) :
    (digits isDigit s).2.length ≤ s.length := by
  fun_induction digits isDigit s <;> simp_all <;> omega

theorem advances_digits? (isDigit : Char → Bool) : (digits? isDigit).Advances := by
  refine ⟨fun {s ds r} h => ?_⟩
  cases s with
  | nil => cases h
  | cons c s =>
    have := length_digits_le isDigit s
    simp only [digits?, Option.ite_none_right_eq_some, Option.some.injEq, Prod.mk.injEq] at h
    obtain ⟨-, -, rfl⟩ := h
    simp only [List.length_cons]
    omega

theorem advances_wholeDigits? : Text.Reader.Advances wholeDigits? := by
  refine ⟨fun {s ds r} h => ?_⟩
  unfold wholeDigits? at h
  split at h
  · cases h
    exact Nat.lt_succ_self _
  · exact (advances_digits? _).length_lt h

theorem advances_based? (base : Nat) : (based? base).Advances := by
  refine ⟨fun {s d r} h => ?_⟩
  simp only [based?, Option.bind_eq_bind, Option.bind_eq_some_iff, Option.pure_def,
    Option.some.injEq, Prod.mk.injEq, Prod.exists] at h
  obtain ⟨_, _, hd, _, _, -, rfl⟩ := h
  exact (advances_digits? _).length_lt hd

theorem length_of_fraction? {s r : List Char} {ds : Option (List Char)}
    (h : fraction? s = some (ds, r)) : r.length ≤ s.length := by
  unfold fraction? at h
  split at h
  · exact Nat.le_of_lt (Nat.lt_succ_of_lt (((advances_digits? _).map some).length_lt h))
  · cases h
    exact Nat.le_refl _

theorem length_of_exponent? {s r : List Char} {n : Option Int}
    (h : exponent? s = some (n, r)) : r.length ≤ s.length := by
  unfold exponent? at h
  split at h
  · next q =>
    have := ((advances_digits? _).map _).length_lt h
    have := Text.length_sign_le q
    simp only [List.length_cons]
    omega
  · next q =>
    have := ((advances_digits? _).map _).length_lt h
    have := Text.length_sign_le q
    simp only [List.length_cons]
    omega
  · cases h
    exact Nat.le_refl _

theorem advances_decimal? (negative : Bool) : (decimal? negative).Advances := by
  refine ⟨fun {s d r} h => ?_⟩
  obtain ⟨⟨ds, s₁⟩, hw, h⟩ := Option.bind_eq_some_iff.1 h
  obtain ⟨⟨fs, s₂⟩, hf, h⟩ := Option.bind_eq_some_iff.1 h
  obtain ⟨⟨e, s₃⟩, he, h⟩ := Option.bind_eq_some_iff.1 h
  have := advances_wholeDigits?.length_lt hw
  have := length_of_fraction? hf
  have := length_of_exponent? he
  by_cases hwhole : (fs.isNone && e.isNone) = true
  · replace h := (if_pos hwhole).symm.trans h
    obtain ⟨_, -, h⟩ := Option.bind_eq_some_iff.1 h
    cases h
    omega
  · replace h := (if_neg hwhole).symm.trans h
    obtain ⟨_, -, h⟩ := Option.bind_eq_some_iff.1 h
    cases h
    omega

theorem advances_unsigned? (negative : Bool) : (unsigned? negative).Advances := by
  refine ⟨fun {s d r} h => ?_⟩
  unfold unsigned? at h
  split at h
  · cases h
    simp only [List.length_cons]
    omega
  · cases h
    simp only [List.length_cons]
    omega
  · exact (advances_decimal? _).length_lt h

theorem advances_number? : Text.Reader.Advances number? := by
  refine ⟨fun {s d r} h => ?_⟩
  unfold number? at h
  split at h
  case h_4 => exact Nat.lt_of_lt_of_le ((advances_unsigned? _).length_lt h) (Text.length_sign_le s)
  all_goals
    have := (advances_based? _).length_lt h
    simp only [List.length_cons]
    omega

end StartOrder.Toml
