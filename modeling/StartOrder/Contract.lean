import StartOrder.Dictionary
import StartOrder.Version
import StartOrder.Vocabulary

/-!
# Capabilities and requirements

A module states what it provides and what it needs by contracts in namespaces. A contract has
typed attributes and textual directives. Once its module is part of a graph it also knows the
module, its owner, but two contracts that differ in the owner alone are the same contract.

## Main definitions

* `AttributeValue`, `Attributes`, `Directives`: what contracts are made of
* `Capability`, `Requirement`: the two kinds of contract
* `Capability.unowned`, `Requirement.unowned`: a contract without its owner
* `Requirement.filter?`, `Requirement.isOptional`, `Requirement.isEffective`: what the
  directives of a requirement say
* `Capability.render`, `Requirement.render`: the texts of contracts in reports
-/

namespace StartOrder

/-- The place of a module in its graph. -/
abbrev ModuleId := Nat

/-- The text of a place in reports. -/
def ModuleId.render (id : ModuleId) : String :=
  "#" ++ id.repr

/-- The value of an attribute. -/
inductive AttributeValue where
  | text (s : String)
  /-- A number of 64 bits with a sign. -/
  | long (n : Int)
  | version (v : Version)
  | list (items : List String)
deriving DecidableEq, Repr

namespace AttributeValue

/-- The text of a value, if it is a text. -/
def text? : AttributeValue → Option String
  | text s => some s
  | _ => none

/-- A value as text; the items of a list are joined by commas. -/
def render : AttributeValue → String
  | text s => s
  | long n => n.repr
  | version v => v.render
  | list items => String.intercalate "," items

end AttributeValue

/-- Attributes by name. -/
abbrev Attributes := Dictionary AttributeValue

/-- Directives by name. -/
abbrev Directives := Dictionary String

/-- What a module provides. -/
structure Capability where
  ns : String
  attributes : Attributes := ∅
  directives : Directives := ∅
  owner : Option ModuleId := none
deriving DecidableEq, Repr

namespace Capability

/-- A capability without its owner. -/
def unowned (c : Capability) : Capability :=
  { c with owner := none }

/-- A capability as provided by the module `id`. -/
def ownedBy (c : Capability) (id : ModuleId) : Capability :=
  { c with owner := some id }

/-- The text of an attribute that is present and textual. -/
def text? (c : Capability) (name : String) : Option String :=
  (c.attributes.get? name).bind AttributeValue.text?

/-- The namespace followed by all attributes. -/
def render (c : Capability) : String :=
  c.attributes.entries.foldl (fun s (name, value) => s ++ s!";{name}={value.render}") c.ns

@[simp] theorem unowned_ownedBy (c : Capability) (id : ModuleId) :
    (c.ownedBy id).unowned = c.unowned := rfl

@[simp] theorem owner_ownedBy (c : Capability) (id : ModuleId) :
    (c.ownedBy id).owner = some id := rfl

end Capability

/-- What a module needs. -/
structure Requirement where
  ns : String
  attributes : Attributes := ∅
  directives : Directives := ∅
  owner : Option ModuleId := none
deriving DecidableEq, Repr

namespace Requirement

/-- A requirement without its owner. -/
def unowned (r : Requirement) : Requirement :=
  { r with owner := none }

/-- A requirement as declared by the module `id`. -/
def ownedBy (r : Requirement) (id : ModuleId) : Requirement :=
  { r with owner := some id }

/-- The text of an attribute that is present and textual. -/
def text? (r : Requirement) (name : String) : Option String :=
  (r.attributes.get? name).bind AttributeValue.text?

/-- The match expression, if the requirement has one. -/
def filter? (r : Requirement) : Option String :=
  r.directives.get? Vocabulary.filter

/-- Whether the requirement may stay open. -/
def isOptional (r : Requirement) : Bool :=
  (r.directives.get? Vocabulary.resolution).map Text.trimmed == some Vocabulary.optional

/-- When the requirement counts: at resolution unless a directive says otherwise. -/
def effective (r : Requirement) : String :=
  ((r.directives.get? Vocabulary.effective).map Text.trimmed).getD Vocabulary.resolve

/-- Whether the requirement takes part in resolution. -/
def isEffective (r : Requirement) : Bool :=
  r.effective == Vocabulary.resolve

/-- The namespace followed by the match expression. -/
def render (r : Requirement) : String :=
  r.ns ++ r.filter?.getD ""

@[simp] theorem unowned_ownedBy (r : Requirement) (id : ModuleId) :
    (r.ownedBy id).unowned = r.unowned := rfl

@[simp] theorem owner_ownedBy (r : Requirement) (id : ModuleId) :
    (r.ownedBy id).owner = some id := rfl

end Requirement

end StartOrder
