import StartOrder.Artifact
import StartOrder.Contract

/-!
# Modules

A module has an identity, a kind and two lists of contracts, and may belong to a feature. A
module that requires a host is a fragment.

## Main definitions

* `Identity`, `ModuleKind`, `PackageExport`, `Module`
* `Module.synthetic`: a module that only exports packages
* `Module.unowned`, `Module.ownedBy`: a module without owners, and as a member of a graph
* `Identity.packageCapability`, `Identity.nameCapability`: the capabilities that stand for an
  exported package and for the module as a whole
-/

namespace StartOrder

/-- The coordinates of a module. -/
structure Identity where
  group : String := ""
  symbolicName : String
  version : Version
deriving DecidableEq, Repr

/-- The name and version of an identity, which is what reports show of it. -/
def Identity.render (i : Identity) : String :=
  s!"{i.symbolicName}~{i.version.render}"

/-- What a module is to the platform. -/
inductive ModuleKind where
  /-- A module that is deployed. -/
  | bundle
  /-- The platform itself, whose capabilities everybody may use. -/
  | framework
  /-- A stand-in for a module without a manifest. -/
  | synthetic
deriving DecidableEq, Repr

/-- A package that a module offers under a version. -/
structure PackageExport where
  name : String
  version : Version
deriving DecidableEq, Repr

namespace Identity

/-- The capability of an exported package. -/
def packageCapability (i : Identity) (e : PackageExport) : Capability where
  ns := Vocabulary.package
  attributes := Dictionary.ofList
    [(Vocabulary.package, .text e.name), (Vocabulary.version, .version e.version),
      (Vocabulary.bundleSymbolicName, .text i.symbolicName),
      (Vocabulary.bundleVersion, .version i.version)]

/-- The capability in the namespace `ns` that stands for the module as a whole. -/
def nameCapability (i : Identity) (ns : String) : Capability where
  ns
  attributes := Dictionary.ofList
    [(ns, .text i.symbolicName), (Vocabulary.bundleVersion, .version i.version)]

end Identity

/-- A module with its contracts. -/
structure Module where
  identity : Identity
  kind : ModuleKind := .bundle
  capabilities : List Capability := []
  requirements : List Requirement := []
  feature : Option Artifact := none
deriving DecidableEq, Repr

namespace Module

/-- A module that only exports packages. -/
def synthetic (identity : Identity) (kind : ModuleKind) (exports : List PackageExport) :
    Module where
  identity
  kind
  capabilities := exports.map identity.packageCapability

/-- A module as part of a feature. -/
def withFeature (m : Module) (feature : Artifact) : Module :=
  { m with feature := some feature }

/-- The capabilities in one namespace, in order of declaration. -/
def capabilitiesIn (m : Module) (ns : String) : List Capability :=
  m.capabilities.filter (·.ns == ns)

/-- The requirements in one namespace, in order of declaration. -/
def requirementsIn (m : Module) (ns : String) : List Requirement :=
  m.requirements.filter (·.ns == ns)

/-- The capabilities in a namespace, or all of them, in order of declaration. -/
def capabilitiesAmong (m : Module) (ns : Option String) : List Capability :=
  m.capabilities.filter fun c => ns.all (c.ns == ·)

/-- The requirements in a namespace, or all of them, in order of declaration. -/
def requirementsAmong (m : Module) (ns : Option String) : List Requirement :=
  m.requirements.filter fun r => ns.all (r.ns == ·)

/-- The requirements for a host. -/
def hostRequirements (m : Module) : List Requirement :=
  m.requirementsIn Vocabulary.host

/-- A module that requires a host is a fragment. -/
def isFragment (m : Module) : Bool :=
  m.requirements.any (·.ns == Vocabulary.host)

/-- A module whose contracts have no owners. -/
def unowned (m : Module) : Module :=
  { m with
    capabilities := m.capabilities.map Capability.unowned
    requirements := m.requirements.map Requirement.unowned }

/-- A module whose contracts are owned by the place `id`. -/
def ownedBy (m : Module) (id : ModuleId) : Module :=
  { m with
    capabilities := m.capabilities.map (·.ownedBy id)
    requirements := m.requirements.map (·.ownedBy id) }

@[simp] theorem unowned_ownedBy (m : Module) (id : ModuleId) :
    (m.ownedBy id).unowned = m.unowned := by
  simp [unowned, ownedBy, Function.comp_def]

theorem owner_of_mem_capabilities_ownedBy {m : Module} {id : ModuleId} {c : Capability}
    (h : c ∈ (m.ownedBy id).capabilities) : c.owner = some id := by
  obtain ⟨d, -, rfl⟩ := List.mem_map.1 h
  rfl

theorem owner_of_mem_requirements_ownedBy {m : Module} {id : ModuleId} {r : Requirement}
    (h : r ∈ (m.ownedBy id).requirements) : r.owner = some id := by
  obtain ⟨d, -, rfl⟩ := List.mem_map.1 h
  rfl

end Module

end StartOrder
