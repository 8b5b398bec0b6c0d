import StartOrder.Contract
import StartOrder.Filter
import StartOrder.Text.Lowercase

/-!
# Matching attributes against a filter

A comparison is made by the type of the attribute, not of the operand: texts by characters,
numbers and versions by size, lists by their items. An operand that is no value of that type
matches nothing, and neither does an attribute that is missing.

## Main definitions

* `Filter.lookup`: the attribute that a key names
* `Piece.fits`: whether a text is put together from pieces
* `Filter.accepts`: whether attributes meet a filter

## Main results

* `Filter.accepts_all`, `Filter.accepts_any`: the connectives of lists
-/

namespace StartOrder

/-- The text that follows the first occurrence of `l`. -/
def Piece.after? (l : List Char) : List Char → Option (List Char)
  | [] => if l.isEmpty then some [] else none
  | c :: s =>
    match l.isPrefixOf? (c :: s) with
    | some rest => some rest
    | none => after? l s

/-- Whether a text is put together from pieces. With `anchored` the next literal has to come
first; after a star it may come later, and the first place is as good as any. A literal at the
very end has to come last. -/
def Piece.fitsFrom (anchored : Bool) : List Piece → List Char → Bool
  | [], s => !anchored || s.isEmpty
  | .star :: ps, s => Piece.fitsFrom false ps s
  | .literal l :: ps, s =>
    if anchored then
      match l.isPrefixOf? s with
      | some rest => Piece.fitsFrom true ps rest
      | none => false
    else if ps.isEmpty then l.isSuffixOf s
    else
      match Piece.after? l s with
      | some rest => Piece.fitsFrom true ps rest
      | none => false

/-- Whether a text is put together from the pieces of a pattern. -/
def Piece.fits (ps : List Piece) (s : String) : Bool :=
  Piece.fitsFrom true ps s.toList

namespace Filter

/-- The attribute that a key names: the one of that very name, or else the first one whose name
differs in the case of ASCII letters alone. -/
def lookup (a : Attributes) (key : String) : Option AttributeValue :=
  (a.get? key).or <|
    (a.entries.find? fun e => Text.asciiLowercase e.1 == Text.asciiLowercase key).map Prod.snd

/-- A text without blanks and case. -/
def folded (s : String) : List Char :=
  (s.toList.filter (!Text.isBlank ·)).flatMap Text.lowercase

/-- Whether a text stands in a relation to the operand. -/
def compareText (op : Comparison) (actual operand : String) : Bool :=
  match op with
  | .equal => actual == operand
  | .approx => folded actual == folded operand
  | .atLeast => operand ≤ actual
  | .atMost => actual ≤ operand

/-- Whether an order between value and operand meets a relation. -/
def satisfies (op : Comparison) (o : Ordering) : Bool :=
  match op with
  | .equal | .approx => o.isEq
  | .atLeast => o.isGE
  | .atMost => o.isLE

/-- Whether a value stands in a relation to the operand, read as a value of the same type. -/
def compareValue (op : Comparison) (operand : String) : AttributeValue → Bool
  | .text s => compareText op s operand
  | .long n =>
    match Text.signed64? (Text.trim operand.toList) with
    | some m => satisfies op (Ord.compare n m)
    | none => false
  | .version v =>
    match Version.parse operand with
    | .ok w => satisfies op (Ord.compare v w)
    | .error _ => false
  | .list items => items.any fun item => compareText op item operand

/-- Whether the text of a value, or the text of one item, is put together from pieces. -/
def matchValue (ps : List Piece) : AttributeValue → Bool
  | .list items => items.any (Piece.fits ps)
  | v => Piece.fits ps v.render

mutual
/-- Whether attributes meet a filter. -/
def accepts (a : Attributes) : Filter → Bool
  | all fs => acceptsAll a fs
  | any fs => acceptsAny a fs
  | not f => !accepts a f
  | compare key op operand => (lookup a key).any (compareValue op operand)
  | present key => (lookup a key).isSome
  | pattern key pieces => (lookup a key).any (matchValue pieces)

/-- Whether attributes meet every one of the filters. -/
def acceptsAll (a : Attributes) : List Filter → Bool
  | [] => true
  | f :: fs => accepts a f && acceptsAll a fs

/-- Whether attributes meet one of the filters. -/
def acceptsAny (a : Attributes) : List Filter → Bool
  | [] => false
  | f :: fs => accepts a f || acceptsAny a fs
end

theorem acceptsAll_eq (a : Attributes) (fs : List Filter) :
    acceptsAll a fs = fs.all (accepts a) := by
  induction fs with
  | nil => rfl
  | cons f fs ih => simp [acceptsAll, ih]

theorem acceptsAny_eq (a : Attributes) (fs : List Filter) :
    acceptsAny a fs = fs.any (accepts a) := by
  induction fs with
  | nil => rfl
  | cons f fs ih => simp [acceptsAny, ih]

@[simp] theorem accepts_all (a : Attributes) (fs : List Filter) :
    accepts a (all fs) = fs.all (accepts a) := by
  rw [accepts, acceptsAll_eq]

@[simp] theorem accepts_any (a : Attributes) (fs : List Filter) :
    accepts a (any fs) = fs.any (accepts a) := by
  rw [accepts, acceptsAny_eq]

@[simp] theorem accepts_not (a : Attributes) (f : Filter) :
    accepts a (not f) = !accepts a f := by
  rw [accepts]

end Filter

end StartOrder
