import StartOrder.Dictionary
import StartOrder.Document

/-!
# Manifests

A manifest describes a module as its authors write it: names, versions and ranges are texts, and
contracts outside of the well-known namespaces are kept as they stand. A host makes the module a
fragment.

## Main definitions

* `ExportEntry`, `ImportEntry`, `HostEntry`, `ContractEntry`, `Manifest`
* `Manifest.ofDocument?`: the manifest that a document holds
-/

namespace StartOrder

/-- A package that is exported. -/
structure ExportEntry where
  name : String
  version : String := "0.0.0"
deriving DecidableEq, Repr

/-- A package that is imported. -/
structure ImportEntry where
  name : String
  /-- A range, or a single version as a lower bound. -/
  version : Option String := none
  isOptional : Bool := false
deriving DecidableEq, Repr

/-- The host of a fragment. -/
structure HostEntry where
  symbolicName : String
  version : Option String := none
deriving DecidableEq, Repr

/-- A capability or requirement in any namespace. The name of an attribute may end with its
type. -/
structure ContractEntry where
  ns : String
  attributes : Dictionary Document := ∅
  directives : Dictionary String := ∅
deriving Repr

/-- The description of a module. -/
structure Manifest where
  symbolicName : String
  version : String
  group : Option String := none
  description : Option String := none
  exports : List ExportEntry := []
  imports : List ImportEntry := []
  host : Option HostEntry := none
  capabilities : List ContractEntry := []
  requirements : List ContractEntry := []
deriving Repr

/-- A module with a host is a fragment. -/
def Manifest.isFragment (m : Manifest) : Bool := m.host.isSome

namespace Document

/-- A value for each name of a table; the last one for a name stands. A moment is the table that
holds its text under a reserved name. -/
def dictionaryOf? {α : Type} (read : Document → Option α) :
    Document → Option (Dictionary α)
  | table es => do
    let es ← es.mapM fun (name, d) => (read d).map (name, ·)
    return Dictionary.ofList es
  | moment t => (read (.text t)).map fun a => Dictionary.ofList [(momentName, a)]
  | _ => none

/-- A document that may be the value of an attribute. -/
def plain? [Readers] (format : Format) (d : Document) : Option Document :=
  if d.isPlain format then some d else none

end Document

open Document

/-- An exported package, with a default for its version. -/
def ExportEntry.ofDocument? (format : Format) (d : Document) : Option ExportEntry := do
  let [name, version] ← d.fields? format ["name", "version"] | none
  return {
    name := ← required? text? name
    version := ← withDefault? "0.0.0" text? version }

/-- An imported package. -/
def ImportEntry.ofDocument? (format : Format) (d : Document) : Option ImportEntry := do
  let [name, version, flag] ← d.fields? format ["name", "version", "optional"] | none
  return {
    name := ← required? text? name
    version := ← withDefault? none (optional? text?) version
    isOptional := ← withDefault? false flag? flag }

/-- The host of a fragment. -/
def HostEntry.ofDocument? (format : Format) (d : Document) : Option HostEntry := do
  let [name, version] ← d.fields? format ["symbolic_name", "version"] | none
  return {
    symbolicName := ← required? text? name
    version := ← withDefault? none (optional? text?) version }

/-- A capability or requirement in any namespace. -/
def ContractEntry.ofDocument? [Readers] (format : Format) (d : Document) :
    Option ContractEntry := do
  let [ns, attributes, directives] ←
    d.fields? format ["namespace", "attributes", "directives"] | none
  return {
    ns := ← required? text? ns
    attributes := ← withDefault? ∅ (dictionaryOf? (plain? format)) attributes
    directives := ← withDefault? ∅ (dictionaryOf? text?) directives }

/-- The manifest that a document holds. -/
def Manifest.ofDocument? [Readers] (format : Format) (d : Document) : Option Manifest := do
  let [name, version, group, description, exports, imports, host, capabilities, requirements] ←
    d.fields? format ["symbolic_name", "version", "group", "description", "exports", "imports",
      "fragment_host", "capabilities", "requirements"] | none
  return {
    symbolicName := ← required? text? name
    version := ← required? text? version
    group := ← withDefault? none (optional? text?) group
    description := ← withDefault? none (optional? text?) description
    exports := ← withDefault? [] (listOf? (ExportEntry.ofDocument? format)) exports
    imports := ← withDefault? [] (listOf? (ImportEntry.ofDocument? format)) imports
    host := ← withDefault? none (optional? (HostEntry.ofDocument? format)) host
    capabilities := ← withDefault? [] (listOf? (ContractEntry.ofDocument? format)) capabilities
    requirements := ← withDefault? [] (listOf? (ContractEntry.ofDocument? format)) requirements }

end StartOrder
