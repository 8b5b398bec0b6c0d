import StartOrder.Text.Blank
import StartOrder.Text.Cut
import StartOrder.Text.Numeral

/-!
# Versions

A version is three numbers and a qualifier, written `major.minor.micro.qualifier`. Numbers that
are left out are zero and a missing qualifier is empty. Versions are ordered by their numbers
and then by the qualifier's characters.

## Main definitions

* `Version`, `Version.Fault`: a version, and why a text is none or bounds no range
* `Version.parse`: the version a text denotes
* `Version.render`: the text of a version, with all three numbers
-/

namespace StartOrder

/-- Three numbers of 32 bits and a qualifier. -/
structure Version where
  major : UInt32
  minor : UInt32 := 0
  micro : UInt32 := 0
  qualifier : String := ""
deriving DecidableEq, Repr, Inhabited

namespace Version

/-- Why a text denotes no version, or no range of versions. Each cause holds the text. -/
inductive Fault where
  /-- Nothing is left once the blanks are taken off. -/
  | empty
  /-- The number at the place `index`, counted from one, is none of 32 bits. -/
  | component (text : String) (index : Nat)
  /-- The qualifier has a character other than ASCII letters, digits, dash and underscore. -/
  | qualifier (text : String)
  /-- The range has no closing bracket. -/
  | unterminated (text : String)
  /-- The range has no comma between two bounds. -/
  | oneBound (text : String)
  /-- The upper bound lies below the lower. -/
  | inverted (text : String)
deriving DecidableEq, Repr

/-- The wording of a fault. -/
def Fault.message : Fault → String
  | empty => "empty version"
  | component text index => s!"{text}: component {index} is not a number"
  | qualifier text => s!"{text}: invalid qualifier"
  | unterminated text => s!"{text}: unterminated range"
  | oneBound text => s!"{text}: range needs two bounds"
  | inverted text => s!"{text}: ceiling below floor"

/-- The version that stands where none is given. -/
def zero : Version := { major := 0 }

/-- Versions are compared number by number, and last by qualifier. -/
instance : Ord Version where
  compare v w :=
    (compare v.major w.major).then <|
      (compare v.minor w.minor).then <|
        (compare v.micro w.micro).then <| compare v.qualifier w.qualifier

/-- A character that may stand in a qualifier. -/
def isQualifierChar (c : Char) : Bool :=
  c.isAlphanum || c == '-' || c == '_'

/-- The number in the field at `index`, zero when there is no such field. -/
def component (text : List Char) (parts : List (List Char)) (index : Nat) :
    Except Fault UInt32 :=
  match parts[index]? with
  | none => .ok 0
  | some part =>
    match Text.unsigned? UInt32.size part with
    | some n => .ok (UInt32.ofNat n)
    | none => .error (.component (String.ofList text) (index + 1))

/-- The version that characters denote; blanks around them do not count. -/
def read (s : List Char) : Except Fault Version := do
  let text := Text.trim s
  if text.isEmpty then throw .empty
  let parts := Text.fields '.' 3 text
  let major ← component text parts 0
  let minor ← component text parts 1
  let micro ← component text parts 2
  let qualifier := parts[3]?.getD []
  unless qualifier.all isQualifierChar do throw (.qualifier (String.ofList text))
  return { major, minor, micro, qualifier := String.ofList qualifier }

/-- The version that a text denotes. -/
def parse (text : String) : Except Fault Version :=
  read text.toList

/-- The text of a version: three numbers, and the qualifier unless it is empty. -/
def render (v : Version) : String :=
  let numbers := s!"{v.major.toNat}.{v.minor.toNat}.{v.micro.toNat}"
  if v.qualifier.isEmpty then numbers else s!"{numbers}.{v.qualifier}"

end Version

end StartOrder
