import StartOrder.Module

/-!
# Membership

The membership records which artifacts carry which identity, which features hold an artifact,
which regions a feature belongs to, and which packages a region lists. A key that was never
recorded is told apart from one that was recorded with nothing.

## Main definitions

* `Membership`: the records
* `Membership.addIdentity`, `Membership.addBundle`, `Membership.addFeature`,
  `Membership.addRegion`: one more record
* `Membership.aliases`, `Membership.featuresOf`, `Membership.regionsOf?`,
  `Membership.packagesOf?`: what is recorded
* `Membership.isGlobal`, `Membership.isVisibleIn`: where a package may be seen
-/

namespace StartOrder

/-- Records of artifacts, features, regions and packages. -/
structure Membership where
  /-- Artifacts with the symbolic names and versions they carry, in order of recording. -/
  identities : List (String × String × Version) := []
  /-- Features by artifact. -/
  features : Dictionary Names := ∅
  /-- Regions by feature. -/
  regions : Dictionary Names := ∅
  /-- Packages by region. -/
  packages : Dictionary Names := ∅
deriving DecidableEq, Repr

namespace Membership

/-- Add names to those recorded for a key. The key counts as recorded even if nothing is added. -/
def record (d : Dictionary Names) (key : String) (names : List String) : Dictionary Names :=
  d.insert key (((d.get? key).getD Dictionary.empty).union (Names.ofList names))

/-- Record that an artifact carries an identity. -/
def addIdentity (m : Membership) (artifact symbolicName : String) (version : Version) :
    Membership :=
  if (artifact, symbolicName, version) ∈ m.identities then m
  else { m with identities := m.identities ++ [(artifact, symbolicName, version)] }

/-- Record features that hold an artifact. -/
def addBundle (m : Membership) (artifact : String) (features : List String) : Membership :=
  { m with features := record m.features artifact features }

/-- Record regions that a feature belongs to. -/
def addFeature (m : Membership) (feature : String) (regions : List String) : Membership :=
  { m with regions := record m.regions feature regions }

/-- Record packages that a region lists. -/
def addRegion (m : Membership) (region : String) (packages : List String) : Membership :=
  { m with packages := record m.packages region packages }

/-- The artifacts that carry the symbolic name and version of an identity. -/
def aliases (m : Membership) (i : Identity) : List String :=
  m.identities.filterMap fun (artifact, name, version) =>
    if name = i.symbolicName ∧ version = i.version then some artifact else none

/-- The features that hold an artifact with the identity. -/
def featuresOf (m : Membership) (i : Identity) : Names :=
  (m.aliases i).foldl
    (fun fs artifact => fs.union ((m.features.get? artifact).getD Dictionary.empty))
    Dictionary.empty

/-- The regions of a feature, if it was recorded. -/
def regionsOf? (m : Membership) (feature : String) : Option Names :=
  m.regions.get? feature

/-- The packages of a region, if it was recorded. -/
def packagesOf? (m : Membership) (region : String) : Option Names :=
  m.packages.get? region

/-- Whether a region lists a package. -/
def lists (m : Membership) (region package : String) : Bool :=
  (m.packagesOf? region).any (·.contains package)

/-- Whether the region that everybody sees lists a package. -/
def isGlobal (m : Membership) (package : String) : Bool :=
  m.lists Vocabulary.globalRegion package

/-- Whether a package is seen by everybody or in one of the regions. -/
def isVisibleIn (m : Membership) (package : String) (regions : List String) : Bool :=
  m.isGlobal package || regions.any fun r => m.lists r package

end Membership

end StartOrder
