import StartOrder.Text.Blank

/-!
# Faults in filter texts

Why a text is no filter, and the report that shows it. A fault holds the text that is left at
the place where it was found and, inside a simple item, the text of the item. The report lists
the places from the inside out, each with its line and a mark below the column.

## Main definitions

* `Filter.Fault`: the causes
* `Filter.Fault.rest`: the text from the place of the fault on
* `Filter.Fault.trail`: the entries of the report
* `Filter.Fault.report`: the report over the whole text
-/

namespace StartOrder.Filter

/-- Why a text is no filter. Texts run from the place that they stand for to the end. -/
inductive Fault where
  /-- No parenthesis opens the filter. -/
  | noOpening (rest : List Char)
  /-- Text follows the filter. -/
  | leftover (rest : List Char)
  /-- No parenthesis closes a connective. -/
  | noClosing (rest : List Char)
  /-- An item has no attribute. -/
  | noName (item : List Char)
  /-- The attribute of an item is blank. -/
  | blankName (item : List Char)
  /-- No comparison follows the attribute of an item. -/
  | noOperator (rest item : List Char)
  /-- A parenthesis opens within a value. -/
  | nestedValue (rest item : List Char)
  /-- A backslash ends the text. -/
  | openEscape (rest item : List Char)
  /-- No parenthesis closes an item. -/
  | openValue (item : List Char)
deriving DecidableEq, Repr

/-- What an entry of a report says of its place. -/
inductive Fault.Entry where
  /-- The character was expected there. -/
  | expected (c : Char)
  /-- The named part was read there. -/
  | within (name : String)
deriving DecidableEq, Repr

namespace Fault

/-- The text from the place of a fault on. -/
def rest : Fault → List Char
  | noOpening r | leftover r | noClosing r => r
  | noName i | blankName i => i
  | noOperator r _ | nestedValue r _ | openEscape r _ => r
  | openValue _ => []

/-- The entries of the report: the place of the fault first, then the parts around it. -/
def trail : Fault → List (List Char × Entry)
  | noOpening r => [(r, .expected '(')]
  | leftover r => [(r, .within "Eof")]
  | noClosing r => [(r, .expected ')'), (r, .within "closing parenthesis")]
  | noName i =>
    [(i, .within "TakeWhile1"), (i, .within "attribute name"), (i, .within "filter item"),
      (i, .within "Alt")]
  | blankName i =>
    [(i, .within "Alpha"), (i, .within "attribute name"), (i, .within "filter item"),
      (i, .within "Alt")]
  | noOperator r i =>
    [(r, .within "Tag"), (r, .within "Alt"), (r, .within "comparison operator"),
      (i, .within "filter item"), (i, .within "Alt")]
  | nestedValue r i => [(r, .within "Char"), (i, .within "filter item")]
  | openEscape r i => [(r, .within "Escaped"), (i, .within "filter item")]
  | openValue i => [([], .within "Eof"), (i, .within "filter item")]

/-- The place of a fault comes first in the report. -/
theorem head?_trail (f : Fault) : f.trail.head?.map Prod.fst = some f.rest := by
  cases f <;> rfl

/-- The number of bytes of a text in UTF-8. -/
def byteLength (s : List Char) : Nat :=
  s.foldl (fun n c => n + c.utf8Size) 0

/-- One entry of the report over `text`: its number, its line, a mark under the place where
`rest` begins, and what was expected there. -/
def describe (text : List Char) (index : Nat) (rest : List Char) (entry : Entry) : String :=
  let before := text.take (text.length - rest.length)
  let lineNumber := before.count '\n' + 1
  let lineStart := (before.reverse.takeWhile (· != '\n')).reverse
  let line := Text.trimEnd (lineStart ++ rest.takeWhile (· != '\n'))
  let mark := String.ofList (List.replicate (byteLength lineStart) ' ' ++ ['^'])
  let place := s!"{index}: at line {lineNumber}"
  let excerpt := s!"{String.ofList line}\n{mark}\n"
  match entry, rest with
  | .within name, _ => s!"{place}, in {name}:\n{excerpt}\n"
  | .expected c, [] =>
    if text.isEmpty then s!"{index}: expected '{c}', got empty input\n\n"
    else s!"{place}:\n{excerpt}expected '{c}', got end of input\n\n"
  | .expected c, d :: _ => s!"{place}:\n{excerpt}expected '{c}', found {d}\n\n"

/-- The report of a fault that was found in `text`. -/
def report (f : Fault) (text : List Char) : String :=
  String.join (f.trail.mapIdx fun i (rest, entry) => describe text i rest entry)

end Fault

/-- A text that is no filter, with the fault found in it. -/
structure Malformed where
  text : String
  fault : Fault
deriving DecidableEq, Repr

/-- The wording of a malformed filter. -/
def Malformed.message (m : Malformed) : String :=
  s!"Malformed filter {m.text}: {m.fault.report m.text.toList}"

end StartOrder.Filter
