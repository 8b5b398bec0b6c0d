import StartOrder.Filter
import StartOrder.Filter.Fault

/-!
# The grammar of filters

A filter stands in parentheses. Behind `&` or `|` it has members, behind `!` one member, and
otherwise it is an item: an attribute, an operator and a value. One of the three signs that no
member follows is the first character of an attribute instead. Members may be set apart by
spaces, tabs and line ends; within an item every character counts, but for the blanks around
the attribute.

## Main definitions

* `Filter.parse`: the filter that a text denotes, or the fault in it
* `Filter.enclosed`, `Filter.members`, `Filter.item`: what follows an opening parenthesis
* `Filter.Mark`, `Filter.value`: the characters of a value and the stars among them
-/

namespace StartOrder.Filter

/-- A character that may stand between filters. -/
def isSeparator (c : Char) : Bool :=
  c == ' ' || c == '\t' || c == '\r' || c == '\n'

/-- A text without the separators it begins with. -/
def skip (s : List Char) : List Char :=
  s.dropWhile isSeparator

theorem length_skip_le (s : List Char) : (skip s).length ≤ s.length :=
  (List.dropWhile_suffix _).length_le

/-- The rests of `s` that are shorter than `s`. -/
abbrev Rest (s : List Char) := { r : List Char // r.length < s.length }

/-- Something read from the start of `s`, with the text that follows it. -/
abbrev Reading (α : Type) (s : List Char) := Except Fault (α × Rest s)

/-- The text behind the parenthesis that opens the next filter, if one does. -/
def opening? (s : List Char) : Option (Rest s) :=
  match h : skip s with
  | '(' :: r => some ⟨r, by
      have := length_skip_le s
      simp only [h, List.length_cons] at this
      omega⟩
  | _ => none

/-- The text behind the closing parenthesis that has to come next. -/
def closing (s : List Char) : Except Fault (Rest s) :=
  match s with
  | ')' :: r => .ok ⟨r, Nat.lt_succ_self _⟩
  | _ => .error (.noClosing s)

/-! ## Items -/

/-- A character that may stand in the name of an attribute. -/
def isNameChar (c : Char) : Bool :=
  c != '=' && c != '<' && c != '>' && c != '~' && c != '(' && c != ')'

/-- The comparison that comes next. -/
def operator? : List Char → Option (Comparison × List Char)
  | '~' :: '=' :: r => some (.approx, r)
  | '>' :: '=' :: r => some (.atLeast, r)
  | '<' :: '=' :: r => some (.atMost, r)
  | '=' :: r => some (.equal, r)
  | _ => none

/-- A unit of a value: a character that stands for itself, or a star without a backslash. -/
inductive Mark where
  | char (c : Char)
  | star
deriving DecidableEq, Repr

/-- The character that a unit is written with. -/
def Mark.toChar : Mark → Char
  | char c => c
  | star => '*'

/-- The units of a value up to the parenthesis that closes the item. A backslash makes the
next character stand for itself. -/
def value (item : List Char) : (s : List Char) → Reading (List Mark) s
  | [] => .error (.openValue item)
  | ')' :: r => .ok ([], ⟨r, Nat.lt_succ_self _⟩)
  | '(' :: r => .error (.nestedValue ('(' :: r) item)
  | ['\\'] => .error (.openEscape ['\\'] item)
  | '\\' :: c :: r =>
    (value item r).map fun (ms, ⟨q, h⟩) =>
      (.char c :: ms, ⟨q, by simp only [List.length_cons]; omega⟩)
  | '*' :: r =>
    (value item r).map fun (ms, ⟨q, h⟩) =>
      (.star :: ms, ⟨q, by simp only [List.length_cons]; omega⟩)
  | c :: r =>
    (value item r).map fun (ms, ⟨q, h⟩) =>
      (.char c :: ms, ⟨q, by simp only [List.length_cons]; omega⟩)

/-- The units of a value as pieces: stars, and between them literals as long as can be. -/
def pieces : List Mark → List Piece
  | [] => []
  | .star :: ms => .star :: pieces ms
  | .char c :: ms =>
    match pieces ms with
    | .literal s :: ps => .literal (c :: s) :: ps
    | ps => .literal [c] :: ps

/-- The condition of an item. An equation with a lone star asks for presence, one with another
star for a pattern; in all other items stars stand for themselves. -/
def condition (key : String) (op : Comparison) (ms : List Mark) : Filter :=
  if op = .equal ∧ .star ∈ ms then
    if ms = [.star] then .present key else .pattern key (pieces ms)
  else .compare key op (String.ofList (ms.map Mark.toChar))

theorem length_dropWhile_isNameChar_le (s : List Char) :
    (s.dropWhile isNameChar).length ≤ s.length :=
  (List.dropWhile_suffix _).length_le

theorem length_of_operator? {s r : List Char} {op : Comparison}
    (h : operator? s = some (op, r)) : r.length < s.length := by
  unfold operator? at h
  split at h <;> cases h <;> simp only [List.length_cons] <;> omega

/-- An item, from its attribute to the parenthesis that closes it. -/
def item (s : List Char) : Reading Filter s :=
  let name := s.takeWhile isNameChar
  if name.isEmpty then .error (.noName s)
  else if (Text.trim name).isEmpty then .error (.blankName s)
  else
    match h : operator? (s.dropWhile isNameChar) with
    | none => .error (.noOperator (s.dropWhile isNameChar) s)
    | some (op, t) => do
      let (ms, ⟨r, hr⟩) ← value s t
      return (condition (String.ofList (Text.trim name)) op ms,
        ⟨r, by
          have := length_of_operator? h
          have := length_dropWhile_isNameChar_le s
          omega⟩)

/-! ## Filters -/

mutual

/-- What follows an opening parenthesis, with the closing one. -/
def enclosed (s : List Char) : Reading Filter s :=
  match s with
  | '&' :: t =>
    match opening? t with
    | none => item ('&' :: t)
    | some ⟨u, hu⟩ => do
      let (fs, ⟨r, hr⟩) ← members u
      let ⟨q, hq⟩ ← closing (skip r)
      return (.all fs, ⟨q, by have := length_skip_le r; simp only [List.length_cons]; omega⟩)
  | '|' :: t =>
    match opening? t with
    | none => item ('|' :: t)
    | some ⟨u, hu⟩ => do
      let (fs, ⟨r, hr⟩) ← members u
      let ⟨q, hq⟩ ← closing (skip r)
      return (.any fs, ⟨q, by have := length_skip_le r; simp only [List.length_cons]; omega⟩)
  | '!' :: t =>
    match opening? t with
    | none => item ('!' :: t)
    | some ⟨u, hu⟩ => do
      let (f, ⟨r, hr⟩) ← enclosed u
      let ⟨q, hq⟩ ← closing r
      return (.not f, ⟨q, by simp only [List.length_cons]; omega⟩)
  | s => item s
termination_by 2 * s.length
decreasing_by all_goals simp only [List.length_cons]; omega

/-- One filter or more, where the parenthesis that opens the first has been read. -/
def members (s : List Char) : Reading (List Filter) s := do
  let (f, ⟨r, hr⟩) ← enclosed s
  match opening? r with
  | none => return ([f], ⟨r, hr⟩)
  | some ⟨t, ht⟩ =>
    let (fs, ⟨q, hq⟩) ← members t
    return (f :: fs, ⟨q, by omega⟩)
termination_by 2 * s.length + 1
decreasing_by all_goals omega

end

/-- The filter that characters denote. -/
def read (s : List Char) : Except Fault Filter :=
  match opening? s with
  | none => .error (.noOpening (skip s))
  | some ⟨t, _⟩ => do
    let (f, ⟨r, _⟩) ← enclosed t
    match skip r with
    | [] => return f
    | q => throw (.leftover q)

/-- The filter that a text denotes. -/
def parse (text : String) : Except Malformed Filter :=
  (read text.toList).mapError (⟨text, ·⟩)

end StartOrder.Filter
