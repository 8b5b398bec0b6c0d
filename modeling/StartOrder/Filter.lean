/-!
# Match expressions

A filter is a condition on attributes: comparisons, presence tests and patterns for single
attributes, put together by conjunction, disjunction and negation.

## Main definitions

* `Comparison`, `Piece`, `Filter`: the parts of a condition and the condition itself
-/

namespace StartOrder

/-- How an attribute is compared with a text. -/
inductive Comparison where
  | equal
  /-- Equal when blanks and case are left aside. -/
  | approx
  | atLeast
  | atMost
deriving DecidableEq, Repr

/-- A part of a pattern: characters that stand for themselves, or any characters. -/
inductive Piece where
  | literal (s : List Char)
  | star
deriving DecidableEq, Repr

/-- A condition on attributes. -/
inductive Filter where
  /-- All of the conditions hold. -/
  | all (fs : List Filter)
  /-- One of the conditions holds. -/
  | any (fs : List Filter)
  /-- The condition does not hold. -/
  | not (f : Filter)
  /-- The attribute stands in a relation to a text. -/
  | compare (key : String) (op : Comparison) (operand : String)
  /-- The attribute is there. -/
  | present (key : String)
  /-- The text of the attribute is put together from the pieces. -/
  | pattern (key : String) (pieces : List Piece)
deriving Repr

end StartOrder
