import StartOrder.Error
import StartOrder.Files
import StartOrder.Manifest

/-!
# Features

A feature names the artifacts that are deployed together. Features with the same coordinates are
the same feature, whatever else they hold.

## Main definitions

* `Feature`, `Feature.ofDocument?`: features and the documents that hold them
* `Feature.ofFile`: the feature in a file
-/

namespace StartOrder

/-- A named set of artifacts with configurations by name. -/
structure Feature where
  id : Artifact
  title : Option String := none
  bundles : List Artifact := []
  configurations : Dictionary Document := ∅
deriving Repr

namespace Feature

/-- Features are compared by their coordinates. -/
instance : BEq Feature := ⟨fun a b => a.id == b.id⟩

theorem beq_iff {a b : Feature} : (a == b) = true ↔ a.id = b.id :=
  beq_iff_eq (a := a.id)

instance : EquivBEq Feature where
  rfl := beq_iff.2 rfl
  symm h := beq_iff.2 (beq_iff.1 h).symm
  trans h h' := beq_iff.2 ((beq_iff.1 h).trans (beq_iff.1 h'))

open Document

/-- Coordinates that a document holds as a text. -/
def artifact? (d : Document) : Option Artifact :=
  d.text?.bind Artifact.parse?

/-- A document all of which can be read. -/
def readable? (d : Document) : Option Document :=
  if d.isReadable then some d else none

/-- The feature that a document holds. -/
def ofDocument? (format : Format) (d : Document) : Option Feature := do
  let [id, title, bundles, configurations] ←
    d.fields? format ["id", "title", "bundles", "configurations"] | none
  return {
    id := ← required? artifact? id
    title := ← withDefault? none (optional? text?) title
    bundles := ← withDefault? [] (listOf? artifact?) bundles
    configurations := ← withDefault? ∅ (dictionaryOf? readable?) configurations }

/-- The feature in the JSON file at a path. -/
def ofFile [Readers] (machine : Machine) (path : String) : Except Error Feature :=
  match machine.textAt path with
  | .ok (some s) =>
    match (Readers.document? .json s).bind (ofDocument? .json) with
    | some f => .ok f
    | none => .error .document
  | _ => .error .file

end Feature

end StartOrder
