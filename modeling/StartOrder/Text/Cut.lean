/-!
# Cutting a text at a mark

A text is cut at the first occurrence of a mark, or into a bounded number of fields of which
the last keeps the remaining marks. Unbounded splitting is `List.splitOn`.

## Main definitions

* `cut`: the two sides of the first mark
* `fields`: at most `n + 1` fields
* `behind?`: the text behind a mark that has to come first
-/

namespace StartOrder.Text

/-- The text before and after the first `mark`, if there is one. -/
def cut (mark : Char) : List Char → Option (List Char × List Char)
  | [] => none
  | c :: s => if c = mark then some ([], s) else (cut mark s).map fun (a, b) => (c :: a, b)

/-- The fields of a text that is cut at its first `n` marks. -/
def fields (mark : Char) : Nat → List Char → List (List Char)
  | 0, s => [s]
  | n + 1, s =>
    match cut mark s with
    | none => [s]
    | some (a, b) => a :: fields mark n b

/-- The text behind a mark that has to come first. -/
def behind? (mark : Char) : List Char → Option (List Char)
  | [] => none
  | c :: s => if c = mark then some s else none

/-- A cut falls on the first mark, and the two sides with the mark between them are the text. -/
theorem cut_eq_some_iff {mark : Char} {s a b : List Char} :
    cut mark s = some (a, b) ↔ mark ∉ a ∧ s = a ++ mark :: b := by
  induction s generalizing a b with
  | nil => simp [cut]
  | cons c s ih =>
    by_cases hc : c = mark
    · subst hc
      cases a with
      | nil => simp [cut]
      | cons d a => simp [cut]; grind
    · cases a with
      | nil => simp [cut, hc]
      | cons d a => simp [cut, hc, ih]; grind

theorem cut_eq_none_iff {mark : Char} {s : List Char} : cut mark s = none ↔ mark ∉ s := by
  induction s with
  | nil => simp [cut]
  | cons c s ih =>
    by_cases hc : c = mark
    · simp [cut, hc]
    · simp [cut, hc, ih, Ne.symm hc]

end StartOrder.Text
