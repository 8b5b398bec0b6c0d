import StartOrder.Dictionary
import StartOrder.Text.Blank
import StartOrder.Text.Numeral

/-!
# Property files

A property file has an entry on each line, a key and a value set apart by an equals sign, a
colon or blanks. Lines that begin with `#` or `!` are comments, a backslash at the end of a line
joins the next line to it, and a backslash before a character makes it an ordinary part of key
or value, or stands for a control character or a code point.

## Main definitions

* `Properties.lines`, `Properties.logicalLines`: lines as written and as joined
* `Properties.splitEntry`: key and value before escapes are read
* `Properties.unescape`: a key or value with its escapes read
* `Properties.parse`: the entries of a text
* `Properties.items`: the items of a value that is a list
-/

namespace StartOrder.Properties

/-- An escape for a code point that does not denote a character: the line on which its entry
begins, counted from one, and the characters that stand for the digits. -/
structure BadEscape where
  line : Nat
  digits : String
deriving DecidableEq, Repr

/-- The wording of a bad escape. -/
def BadEscape.message (e : BadEscape) : String :=
  s!"line {e.line}: malformed \\u escape: \\u{e.digits}"

/-! ## Lines -/

/-- A line without the carriage return before its line feed. -/
def dropReturn (line : List Char) : List Char :=
  if line.getLast? = some '\r' then line.dropLast else line

/-- The lines of a text. The last line counts only if it is not empty, and keeps a carriage
return that no line feed follows. -/
def lines (s : List Char) : List (List Char) :=
  let parts := s.splitOn '\n'
  let last := parts.getLast?.getD []
  parts.dropLast.map dropReturn ++ if last.isEmpty then [] else [last]

/-- Whether the next line belongs to this one: it ends with an odd number of backslashes. -/
def continues (line : List Char) : Bool :=
  (line.reverse.takeWhile (· == '\\')).length % 2 == 1

/-- A line with all lines joined that belong to it, and the lines that follow. The blanks that
a joined line begins with do not count. The last line alone decides whether one more belongs to
it, since what comes before has lost one backslash and keeps an even number at its end. -/
def join (line : List Char) : List (Nat × List Char) → List Char × List (Nat × List Char)
  | [] => (if continues line then line.dropLast else line, [])
  | (n, next) :: ls =>
    if continues line then
      let (joined, rest) := join (Text.trimStart next) ls
      (line.dropLast ++ joined, rest)
    else (line, (n, next) :: ls)

theorem length_join_le (line : List Char) (ls : List (Nat × List Char)) :
    (join line ls).2.length ≤ ls.length := by
  induction ls generalizing line with
  | nil => simp [join]
  | cons l ls ih =>
    obtain ⟨n, next⟩ := l
    unfold join
    split
    · exact Nat.le_succ_of_le (ih _)
    · exact Nat.le_refl _

/-- Whether a line holds no entry. -/
def isComment (line : List Char) : Bool :=
  line.isEmpty || line.head? == some '#' || line.head? == some '!'

/-- The joined lines that hold entries, with the numbers of their first lines. -/
def logicalLines : List (Nat × List Char) → List (Nat × List Char)
  | [] => []
  | (n, line) :: ls =>
    let line := Text.trimStart line
    if isComment line then logicalLines ls
    else (n, (join line ls).1) :: logicalLines (join line ls).2
termination_by ls => ls.length
decreasing_by
  · simp
  · simpa using Nat.lt_succ_of_le (length_join_le _ _)

/-! ## Entries -/

/-- A space, a tab or a form feed. -/
def isGap (c : Char) : Bool :=
  c == ' ' || c == '\t' || c == '\x0c'

/-- A character that ends a key unless a backslash comes before it. -/
def endsKey (c : Char) : Bool :=
  c == '=' || c == ':' || isGap c

/-- The key of an entry with its escapes, and what follows it. -/
def splitKey : List Char → List Char × List Char
  | [] => ([], [])
  | '\\' :: c :: r =>
    let (key, rest) := splitKey r
    ('\\' :: c :: key, rest)
  | c :: r =>
    if endsKey c then ([], c :: r)
    else
      let (key, rest) := splitKey r
      (c :: key, rest)

/-- A text without the equals sign or colon it begins with. -/
def dropMark : List Char → List Char
  | '=' :: r | ':' :: r => r
  | s => s

/-- Key and value of an entry, with their escapes. -/
def splitEntry (line : List Char) : List Char × List Char :=
  let (key, rest) := splitKey line
  (key, (dropMark (rest.dropWhile isGap)).dropWhile isGap)

/-- The character of an escape with four hexadecimal digits, of which the first may be a plus
instead. -/
def codePoint? (a b c d : Char) : Option Char := do
  let n ← Text.hex? (if a = '+' then [b, c, d] else [a, b, c, d])
  if h : n.isValidChar then some (Char.ofNatAux n h) else none

/-- A key or value with its escapes read, or the characters that should have been the digits of
a code point. -/
def unescape : List Char → Except (List Char) (List Char)
  | [] | ['\\'] => .ok []
  | '\\' :: 't' :: r => (unescape r).map ('\t' :: ·)
  | '\\' :: 'n' :: r => (unescape r).map ('\n' :: ·)
  | '\\' :: 'r' :: r => (unescape r).map ('\r' :: ·)
  | '\\' :: 'f' :: r => (unescape r).map ('\x0c' :: ·)
  | '\\' :: 'u' :: a :: b :: c :: d :: r =>
    match codePoint? a b c d with
    | some x => (unescape r).map (x :: ·)
    | none => .error [a, b, c, d]
  | '\\' :: 'u' :: r => .error (r.take 4)
  | '\\' :: c :: r => (unescape r).map (c :: ·)
  | c :: r => (unescape r).map (c :: ·)

/-- Key and value of a joined line. -/
def entry (line : Nat × List Char) : Except BadEscape (String × String) :=
  let (key, value) := splitEntry line.2
  let read (s : List Char) := ((unescape s).map String.ofList).mapError
    fun digits => (⟨line.1, String.ofList digits⟩ : BadEscape)
  do return (← read key, ← read value)

/-- The entries of a text. The last value for a key stands. -/
def parse (text : String) : Except BadEscape (Dictionary String) := do
  let numbered := (lines text.toList).mapIdx fun i line => (i + 1, line)
  return Dictionary.ofList (← (logicalLines numbered).mapM entry)

/-- The items of a value that is a list with commas, without blanks and empty items. -/
def items (value : String) : List String :=
  (((value.toList.splitOn ',').map Text.trim).filter (!·.isEmpty)).map String.ofList

end StartOrder.Properties
