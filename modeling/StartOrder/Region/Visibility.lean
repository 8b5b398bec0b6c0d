import StartOrder.Module.Graph
import StartOrder.Region.Membership

/-!
# Visibility between regions

A region filter keeps of the providers of a package those that the requiring module may see.
Everybody sees the platform and itself, modules of one feature see each other, and a package is
seen in the regions that list it. A policy decides about providers that the membership does not
classify. Other namespaces are left alone.

## Main definitions

* `Hook`: anything that removes providers
* `Policy`, `RegionFilter`: what decides
* `RegionFilter.sees`: whether a provider may be seen
* `RegionFilter.keep`, `RegionFilter.hook`: the providers that may be seen
-/

namespace StartOrder

/-- What is asked for every requirement which of its providers may be used. It only removes
providers, and always the same ones. -/
structure Hook where
  keep : Graph → Requirement → List Capability → List Capability
  keep_sublist : ∀ g r cs, (keep g r cs).Sublist cs

/-- What happens to providers without features, or with a feature that has no regions. -/
inductive Policy where
  /-- They are seen by everybody. -/
  | failOpen
  /-- They are only seen through the regions that list the package. -/
  | failClosed
deriving DecidableEq, Repr, Inhabited

/-- A membership with the policy for what it does not classify. -/
structure RegionFilter where
  membership : Membership
  policy : Policy := .failOpen
deriving DecidableEq, Repr

namespace RegionFilter

/-- The features of the module at a place. -/
def featuresAt (f : RegionFilter) (m : Option Module) : Names :=
  (m.map fun m => f.membership.featuresOf m.identity).getD Dictionary.empty

/-- The regions of features. -/
def regionsOf (f : RegionFilter) (features : Names) : List String :=
  features.toList.flatMap fun x => ((f.membership.regionsOf? x).map Names.toList).getD []

/-- Whether the provider of a capability is the platform or the requiring module itself, which
may be another module with the same identity. -/
def isFamiliar (g : Graph) (r : Requirement) (c : Capability) : Bool :=
  match c.owner.bind g.get? with
  | none => false
  | some provider =>
    provider.kind == .framework || c.owner == r.owner ||
      (r.owner.bind g.get?).any fun requester => requester.identity == provider.identity

/-- Whether the policy opens a provider with the given features to everybody. -/
def isUnclassified (f : RegionFilter) (features : Names) : Bool :=
  f.policy == .failOpen &&
    (features.toList.isEmpty || features.toList.any fun x => (f.membership.regionsOf? x).isNone)

/-- Whether a package of a capability is seen by everybody or in one of the regions. -/
def isListed (f : RegionFilter) (c : Capability) (regions : List String) : Bool :=
  (c.text? Vocabulary.package).any fun p => f.membership.isVisibleIn p regions

/-- Whether the module that requires a package may see a provider of it. -/
def sees (f : RegionFilter) (g : Graph) (r : Requirement) (c : Capability) : Bool :=
  let own := f.featuresAt (r.owner.bind g.get?)
  let others := f.featuresAt (c.owner.bind g.get?)
  isFamiliar g r c || others.meets own || f.isUnclassified others ||
    f.isListed c (f.regionsOf own)

/-- The providers of a requirement that may be seen, in the same order. -/
def keep (f : RegionFilter) (g : Graph) (r : Requirement) (cs : List Capability) :
    List Capability :=
  if r.ns = Vocabulary.package then cs.filter (f.sees g r) else cs

/-- A region filter only removes providers. -/
theorem keep_sublist (f : RegionFilter) (g : Graph) (r : Requirement) (cs : List Capability) :
    (f.keep g r cs).Sublist cs := by
  unfold keep
  split
  · exact List.filter_sublist
  · exact List.Sublist.refl _

/-- A region filter where providers are looked for. -/
def hook (f : RegionFilter) : Hook := ⟨f.keep, f.keep_sublist⟩

end RegionFilter

instance : Coe (List RegionFilter) (List Hook) := ⟨List.map RegionFilter.hook⟩

end StartOrder
