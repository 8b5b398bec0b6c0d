import StartOrder.Version

/-!
# Ranges of versions

A range is a lower bound and, unless it is open above, an upper bound, each with or without the
bound itself. It is written as an interval such as `[1.0,2.0)`, or as a single version, which
stands for that version and all later ones.

## Main definitions

* `Version.Range`, `Version.Range.includes`: a range and its members
* `Version.Range.parse`, `Version.Range.render`: its written form
* `Version.Range.filterText`: the filter over an attribute that accepts the members
-/

namespace StartOrder.Version

/-- An interval of versions, open above when it has no ceiling. -/
structure Range where
  floor : Version
  floorIncluded : Bool
  ceiling : Option Version
  ceilingIncluded : Bool
deriving DecidableEq, Repr

namespace Range

/-- The version `floor` and all later ones. -/
def atLeast (floor : Version) : Range :=
  { floor, floorIncluded := true, ceiling := none, ceilingIncluded := false }

/-- All versions from zero on. -/
def any : Range := atLeast Version.zero

/-- Whether a version lies above the floor and below the ceiling. -/
def includes (r : Range) (v : Version) : Bool :=
  let above := if r.floorIncluded then (compare v r.floor).isGE else (compare v r.floor).isGT
  let below := match r.ceiling with
    | none => true
    | some c => if r.ceilingIncluded then (compare v c).isLE else (compare v c).isLT
  above && below

/-- The interval between brackets, of which the first has been taken off: `text` is the whole
range and `body` what follows the opening bracket. -/
def readBounds (text : List Char) (floorIncluded : Bool) (body : List Char) :
    Except Fault Range := do
  let ceilingIncluded ← match body.getLast? with
    | some ']' => pure true
    | some ')' => pure false
    | _ => throw (.unterminated (String.ofList text))
  match Text.cut ',' body.dropLast with
  | none => throw (.oneBound (String.ofList text))
  | some (low, high) =>
    let floor ← Version.read low
    let ceiling ← Version.read high
    if (compare ceiling floor).isLT then throw (.inverted (String.ofList text))
    return { floor, floorIncluded, ceiling := some ceiling, ceilingIncluded }

/-- The range that characters denote; blanks around them do not count. -/
def read (s : List Char) : Except Fault Range :=
  match Text.trim s with
  | '[' :: body => readBounds (Text.trim s) true body
  | '(' :: body => readBounds (Text.trim s) false body
  | text => atLeast <$> Version.read text

/-- The range that a text denotes. -/
def parse (text : String) : Except Fault Range :=
  read text.toList

/-- The text of a range: an interval, or the floor alone when there is no ceiling. -/
def render (r : Range) : String :=
  match r.ceiling with
  | none => r.floor.render
  | some c =>
    let opening := if r.floorIncluded then "[" else "("
    let closing := if r.ceilingIncluded then "]" else ")"
    opening ++ r.floor.render ++ "," ++ c.render ++ closing

/-- The filter text that accepts the members of a range as values of `key`. A bound that
is left out is the negation of the comparison the other way. -/
def filterText (r : Range) (key : String) : String :=
  let low := if r.floorIncluded then s!"({key}>={r.floor.render})"
    else s!"(!({key}<={r.floor.render}))"
  match r.ceiling with
  | none => low
  | some c =>
    let high := if r.ceilingIncluded then s!"({key}<={c.render})"
      else s!"(!({key}>={c.render}))"
    s!"(&{low}{high})"

end Range

end StartOrder.Version
