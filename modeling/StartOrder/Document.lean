import StartOrder.Binary64

/-!
# Documents

The values that structured text files hold, whichever of the two formats they are written in,
and the readers that take records out of them. A reader gives nothing when the document does not
have the form it asks for.

How the texts themselves are read is left open. Whatever is said of the files that hold documents
is said for all readers of the formats.

## Main definitions

* `Format`, `Document`: the formats and the values
* `Readers`: what reads texts in the formats
* `Document.fields?`: the fields of a record
* `Document.text?`, `Document.flag?`, `Document.natural?`, `Document.listOf?`,
  `Document.dictionaryOf?`, `Document.optional?`, `Document.choice?`: readers
* `Document.isReadable`, `Document.isPlain`: documents that may be kept as they are
-/

namespace StartOrder

/-- The formats of structured text. -/
inductive Format where
  | json
  | toml
deriving DecidableEq, Repr

/-- A value of a structured text. -/
inductive Document where
  | null
  | boolean (b : Bool)
  | integer (n : Int)
  | float (x : Binary64)
  | text (s : String)
  /-- A date, a time of day, or both. -/
  | moment (text : String)
  | list (items : List Document)
  /-- Entries in the order in which they are written. -/
  | table (entries : List (String × Document))
  /-- A value that is well formed but has no reading: a number out of range, a text with half
  of a surrogate pair, or a value nested too deep. Only a reader that skips it succeeds. -/
  | unreadable
deriving Repr

/-- What reads texts in the formats. No law is asked of it. -/
class Readers where
  /-- The document that a text in a format denotes. -/
  document? : Format → String → Option Document
  /-- Whether a text is a date, a time of day, or both. -/
  isMoment : String → Bool

namespace Document

/-- The name under which the table that a moment is holds its text. -/
def momentName : String := "$__toml_private_datetime"

/-- The fields of a record with the given names. A table gives them by name, and no name may
occur twice; other entries do not count. A list gives them by place; in JSON it may not be
longer than the record. A moment is a table that has none of them. -/
def fields? (format : Format) (names : List String) : Document → Option (List (Option Document))
  | table es =>
    if names.all fun n => (es.filter (·.1 == n)).length ≤ 1 then
      some (names.map fun n => es.lookup n)
    else none
  | list items =>
    if format = .json ∧ names.length < items.length then none
    else some (names.mapIdx fun i _ => items[i]?)
  | moment _ => some (names.map fun _ => none)
  | _ => none

/-- A text. -/
def text? : Document → Option String
  | text s => some s
  | _ => none

/-- A truth value. -/
def flag? : Document → Option Bool
  | boolean b => some b
  | _ => none

/-- A whole number of 64 bits without sign. -/
def natural? : Document → Option Nat
  | integer n => if 0 ≤ n ∧ n.toNat < 1 <<< 64 then some n.toNat else none
  | _ => none

/-- A list of values of one form. -/
def listOf? {α : Type} (read : Document → Option α) : Document → Option (List α)
  | list items => items.mapM read
  | _ => none

/-- A value that may be null. -/
def optional? {α : Type} (read : Document → Option α) : Document → Option (Option α)
  | null => some none
  | d => (read d).map some

/-- Whether a document may stand behind the name of an alternative that holds nothing. -/
def isNothing (format : Format) : Document → Bool
  | null => format == .json
  | list items => format == .toml && items.isEmpty
  | table es => format == .toml && es.isEmpty
  | _ => false

/-- One of several named alternatives, written as its name or as a table with that one name. -/
def choice? {α : Type} (format : Format) (alternatives : List (String × α)) :
    Document → Option α
  | text s => alternatives.lookup s
  | table [(s, d)] => if d.isNothing format then alternatives.lookup s else none
  | _ => none

/-- A field that has to be there. -/
def required? {α : Type} (read : Document → Option α) : Option Document → Option α
  | some d => read d
  | none => none

/-- A field with a default. -/
def withDefault? {α : Type} (a : α) (read : Document → Option α) : Option Document → Option α
  | some d => read d
  | none => some a

mutual
/-- Whether every part of a document has a reading. -/
def isReadable : Document → Bool
  | unreadable => false
  | list items => areReadable items
  | table es => entriesReadable es
  | _ => true

/-- Whether every part of every item has a reading. -/
def areReadable : List Document → Bool
  | [] => true
  | d :: ds => isReadable d && areReadable ds

/-- Whether every part of every entry has a reading. -/
def entriesReadable : List (String × Document) → Bool
  | [] => true
  | (_, d) :: es => isReadable d && entriesReadable es
end

/-- Whether the table with given entries is a moment that is written as a table: its first entry
has the reserved name. In JSON names come in the order of their characters. -/
def isWrittenMoment (format : Format) (es : List (String × Document)) : Bool :=
  match format with
  | .toml => es.head?.any (·.1 == momentName)
  | .json => es.any (·.1 == momentName) && es.all fun e => momentName ≤ e.1

section Plain

variable [Readers]

/-- Whether the entries of a moment that is written as a table give its text. In JSON they give
nothing else. -/
def isProperMoment (format : Format) (es : List (String × Document)) : Bool :=
  (format == .toml || es.length == 1) && match es.lookup momentName with
    | some (text s) => Readers.isMoment s
    | _ => false

mutual
/-- Whether a document may be kept as the value of an attribute: no part of it is null or
without a reading, whole numbers have 64 bits with a sign, and moments are moments. -/
def isPlain (format : Format) : Document → Bool
  | null | unreadable => false
  | integer n => -2 ^ 63 ≤ n && n < 2 ^ 63
  | list items => arePlain format items
  | table es =>
    if isWrittenMoment format es then isProperMoment format es else entriesPlain format es
  | _ => true

/-- Whether every item may be part of the value of an attribute. -/
def arePlain (format : Format) : List Document → Bool
  | [] => true
  | d :: ds => isPlain format d && arePlain format ds

/-- Whether every entry may be part of the value of an attribute. -/
def entriesPlain (format : Format) : List (String × Document) → Bool
  | [] => true
  | (_, d) :: es => isPlain format d && entriesPlain format es
end

end Plain

end Document

end StartOrder
