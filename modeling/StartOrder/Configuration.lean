import StartOrder.Document.Readers
import StartOrder.Feature
import StartOrder.Order
import StartOrder.Region.Files
import StartOrder.Repository

/-!
# Configuration

A configuration names the repository of manifests, describes the platform and the launch
interface, and may set up region filtering and logging. Everything has a default. It is kept in
a file of either document format, and it describes the orderer that works by it.

## Main definitions

* `PlatformSettings`, `LaunchSettings`, `LogSettings`, `Configuration`
* `Configuration.ofDocument?`, `Configuration.toDocument`: reading and writing
* `Configuration.validate`: the first thing that is wrong with a configuration
* `Configuration.orderer`, `Orderer.standard`: orderers
* `Orderer.orderFeaturesBy`, `Orderer.orderFeatures`: features in start order
-/

namespace StartOrder

/-- The platform that everybody may use. -/
structure PlatformSettings where
  symbolicName : String := "org.apache.felix.framework"
  version : String := "6.0.1"
  exports : List ExportEntry :=
    [⟨"org.osgi.dto", "1.1.0"⟩, ⟨"org.osgi.framework", "1.9.0"⟩,
      ⟨"org.osgi.framework.dto", "1.8.0"⟩, ⟨"org.osgi.framework.hooks.resolver", "1.0.0"⟩,
      ⟨"org.osgi.framework.hooks.service", "1.1.0"⟩, ⟨"org.osgi.framework.launch", "1.2.0"⟩,
      ⟨"org.osgi.framework.namespace", "1.1.0"⟩, ⟨"org.osgi.framework.startlevel", "1.0.0"⟩,
      ⟨"org.osgi.framework.wiring", "1.2.0"⟩, ⟨"org.osgi.resource", "1.0.0"⟩,
      ⟨"org.osgi.service.packageadmin", "1.2.0"⟩, ⟨"org.osgi.service.resolver", "1.1.0"⟩,
      ⟨"org.osgi.service.startlevel", "1.1.0"⟩, ⟨"org.osgi.service.url", "1.0.0"⟩,
      ⟨"org.osgi.util.tracker", "1.5.2"⟩]
deriving DecidableEq, Repr

/-- The launch interface, with the packages it exports when it has no manifest. -/
structure LaunchSettings where
  artifact : String := "org.apache.sling:org.apache.sling.launchpad.api:1.2.0"
  exports : List ExportEntry := [⟨"org.apache.sling.launchpad.api", "1.2.0"⟩]
deriving DecidableEq, Repr

/-- How the program reports what it does. -/
structure LogSettings where
  filter : Option String := none
  asJson : Bool := false
deriving DecidableEq, Repr

/-- Everything that can be set. -/
structure Configuration where
  modules : Repository := {}
  platform : PlatformSettings := {}
  launch : LaunchSettings := {}
  regions : Option Region.Settings := none
  logging : Option LogSettings := none
  /-- How many filters are kept in memory once they are read. -/
  filterCapacity : Nat := 10000
deriving DecidableEq, Repr

/-! ## Reading -/

open Document

/-- The names of the policies. -/
def Policy.names : List (String × Policy) :=
  [("fail_open", .failOpen), ("fail_closed", .failClosed)]

/-- The name of a policy. -/
def Policy.render : Policy → String
  | .failOpen => "fail_open"
  | .failClosed => "fail_closed"

/-- The repository that a document describes. -/
def Repository.ofDocument? (format : Format) (d : Document) : Option Repository := do
  let [directory, strict] ← d.fields? format ["modules_dir", "strict_validation"] | none
  return {
    directory := ← withDefault? "modules" text? directory
    strict := ← withDefault? false flag? strict }

/-- Exported packages. -/
def exportsOfDocument? (format : Format) : Document → Option (List ExportEntry) :=
  listOf? (ExportEntry.ofDocument? format)

/-- The platform that a document describes. -/
def PlatformSettings.ofDocument? (format : Format) (d : Document) : Option PlatformSettings := do
  let [name, version, exports] ← d.fields? format ["symbolic_name", "version", "exports"] | none
  let default : PlatformSettings := {}
  return {
    symbolicName := ← withDefault? default.symbolicName text? name
    version := ← withDefault? default.version text? version
    exports := ← withDefault? default.exports (exportsOfDocument? format) exports }

/-- The launch interface that a document describes. -/
def LaunchSettings.ofDocument? (format : Format) (d : Document) : Option LaunchSettings := do
  let [artifact, exports] ← d.fields? format ["artifact", "exports"] | none
  let default : LaunchSettings := {}
  return {
    artifact := ← withDefault? default.artifact text? artifact
    exports := ← withDefault? default.exports (exportsOfDocument? format) exports }

/-- The region settings that a document holds. -/
def Region.Settings.ofDocument? (format : Format) (d : Document) : Option Region.Settings := do
  let [directory, identities, bundles, features, regions, policy] ←
    d.fields? format ["data_dir", "id_bsnver_file", "bundles_file", "features_file",
      "regions_file", "unclassified"] | none
  let default : Region.Settings := {}
  return {
    directory := ← withDefault? default.directory text? directory
    identities := ← withDefault? default.identities text? identities
    bundles := ← withDefault? default.bundles text? bundles
    features := ← withDefault? default.features text? features
    regions := ← withDefault? default.regions text? regions
    policy := ← withDefault? default.policy (choice? format Policy.names) policy }

/-- The log settings that a document holds. -/
def LogSettings.ofDocument? (format : Format) (d : Document) : Option LogSettings := do
  let [filter, asJson] ← d.fields? format ["filter", "json_format"] | none
  return {
    filter := ← withDefault? none (optional? text?) filter
    asJson := ← withDefault? false flag? asJson }

namespace Configuration

/-- The configuration that a document holds. -/
def ofDocument? (format : Format) (d : Document) : Option Configuration := do
  let [modules, platform, launch, regions, logging, capacity] ←
    d.fields? format ["modules", "framework", "launch_api", "regions", "logging",
      "filter_cache_capacity"] | none
  let default : Configuration := {}
  return {
    modules := ← withDefault? default.modules (Repository.ofDocument? format) modules
    platform := ← withDefault? default.platform (PlatformSettings.ofDocument? format) platform
    launch := ← withDefault? default.launch (LaunchSettings.ofDocument? format) launch
    regions := ← withDefault? none (optional? (Region.Settings.ofDocument? format)) regions
    logging := ← withDefault? none (optional? (LogSettings.ofDocument? format)) logging
    filterCapacity := ← withDefault? default.filterCapacity natural? capacity }

/-- The configuration in the file at a path. -/
def ofFile [Readers] (machine : Machine) (format : Format) (path : String) :
    Except Error Configuration :=
  match machine.textAt path with
  | .ok (some s) =>
    match (Readers.document? format s).bind (ofDocument? format) with
    | some c => .ok c
    | none => .error .document
  | _ => .error .file

/-! ## Writing -/

/-- Exported packages as a document. -/
def exportsToDocument (es : List ExportEntry) : Document :=
  .list (es.map fun e => .table [("name", .text e.name), ("version", .text e.version)])

/-- A value that may be missing, as a document. -/
def optionalToDocument {α : Type} (write : α → Document) : Option α → Document
  | some a => write a
  | none => .null

/-- Region settings as a document. -/
def regionsToDocument (s : Region.Settings) : Document :=
  .table [("data_dir", .text s.directory), ("id_bsnver_file", .text s.identities),
    ("bundles_file", .text s.bundles), ("features_file", .text s.features),
    ("regions_file", .text s.regions), ("unclassified", .text s.policy.render)]

/-- Log settings as a document. -/
def loggingToDocument (s : LogSettings) : Document :=
  .table [("filter", optionalToDocument .text s.filter), ("json_format", .boolean s.asJson)]

/-- A configuration as a document. -/
def toDocument (c : Configuration) : Document :=
  .table [
    ("modules", .table [("modules_dir", .text c.modules.directory),
      ("strict_validation", .boolean c.modules.strict)]),
    ("framework", .table [("symbolic_name", .text c.platform.symbolicName),
      ("version", .text c.platform.version), ("exports", exportsToDocument c.platform.exports)]),
    ("launch_api", .table [("artifact", .text c.launch.artifact),
      ("exports", exportsToDocument c.launch.exports)]),
    ("regions", optionalToDocument regionsToDocument c.regions),
    ("logging", optionalToDocument loggingToDocument c.logging),
    ("filter_cache_capacity", .integer c.filterCapacity)]

/-! ## Validation -/

/-- What is wrong with a configuration. -/
inductive Fault where
  | blankDirectory
  | blankName
  | platformVersion (e : Error)
  | launchArtifact (e : Error)
  | exportVersion (name : String) (e : Error)
  | noCapacity
  | blankFile (field : String)
deriving DecidableEq, Repr

/-- The wording of what is wrong. -/
def Fault.message : Fault → String
  | blankDirectory => "modules.modules_dir must not be empty"
  | blankName => "framework.symbolic_name must not be empty"
  | platformVersion e => s!"framework.version: {e.text}"
  | launchArtifact e => s!"launch_api.artifact: {e.text}"
  | exportVersion name e => s!"export {name}: {e.text}"
  | noCapacity => "filter_cache_capacity must be greater than 0"
  | blankFile field => s!"regions.{field} must not be empty"

/-- Whether a text has no character that is not blank. -/
def isBlankText (s : String) : Bool :=
  (Text.trim s.toList).isEmpty

/-- Refuse a configuration unless the names of the membership files are given. -/
def validateRegions (s : Region.Settings) : Except Fault Unit := do
  for (field, name) in [("id_bsnver_file", s.identities), ("bundles_file", s.bundles),
      ("features_file", s.features), ("regions_file", s.regions)] do
    if isBlankText name then throw (.blankFile field)

/-- Refuse a configuration for the first thing that is wrong with it. -/
def validate (c : Configuration) : Except Fault Unit := do
  if isBlankText c.modules.directory then throw .blankDirectory
  if isBlankText c.platform.symbolicName then throw .blankName
  let _ ← (Error.readVersion c.platform.version).mapError .platformVersion
  let _ ← (Error.readArtifact c.launch.artifact).mapError .launchArtifact
  for e in c.platform.exports ++ c.launch.exports do
    let _ ← (Error.readVersion e.version).mapError (.exportVersion e.name)
  if c.filterCapacity = 0 then throw .noCapacity
  if let some s := c.regions then validateRegions s

end Configuration

/-! ## Orderers -/

/-- The package of an entry. -/
def ExportEntry.package (e : ExportEntry) : Except Error PackageExport := do
  return ⟨Text.trimmed e.name, ← Error.readVersion e.version⟩

namespace Orderer

/-- The stand-in for the launch interface. A version that cannot be read is zero. -/
def launchModule (a : Artifact) (exports : List PackageExport) : Module :=
  Module.synthetic
    { group := a.group
      symbolicName := a.artifact
      version := ((Version.parse a.version).toOption).getD Version.zero }
    .synthetic exports

/-- An orderer with another platform. -/
def withFramework (o : Orderer) (i : Identity) (exports : List PackageExport) : Orderer :=
  { o with framework := Module.synthetic i .framework exports }

/-- An orderer with other packages for the launch interface. -/
def withLaunchExports (o : Orderer) (exports : List PackageExport) : Orderer :=
  { o with launchApi := launchModule o.launchArtifact exports }

/-- An orderer whose platform adds one more capability. -/
def withHosted (o : Orderer) (c : Capability) : Orderer :=
  { o with hosted := o.hosted ++ [c] }

/-- The orderer for the default platform and launch interface. -/
def standard (filters : List RegionFilter) : Orderer :=
  let c : Configuration := {}
  let packages (es : List ExportEntry) := es.filterMap fun e => e.package.toOption
  let artifact := (Artifact.parse? c.launch.artifact).getD ⟨"", "", ""⟩
  { filters
    framework := Module.synthetic
      { symbolicName := c.platform.symbolicName
        version := ((Version.parse c.platform.version).toOption).getD Version.zero }
      .framework (packages c.platform.exports)
    launchArtifact := artifact
    launchApi := launchModule artifact (packages c.launch.exports) }

/-- The modules of features, as `describe` looks their manifests up, with the features to which
they belong. -/
def featureEntries (describe : Artifact → Except Error Descriptor) (features : List Feature) :
    Except Error (List (Module × Feature)) := do
  let entries ← features.mapM fun f => f.bundles.mapM fun a => do
    let m ← (← describe a).manifest.toModule
    return (m.withFeature f.id, f)
  return entries.flatten

/-- The module of the launch interface. There is a stand-in for it when it has no manifest. -/
def describedLaunchApi (o : Orderer) (describe : Artifact → Except Error Descriptor) :
    Except Error Module :=
  match describe o.launchArtifact with
  | .ok d => d.manifest.toModule
  | .error (.noManifest _ _) => .ok o.launchApi
  | .error e => .error e

/-- The features in start order. The manifests of all their artifacts are looked up first, and
then that of the launch interface. -/
def orderFeaturesBy (o : Orderer) (describe : Artifact → Except Error Descriptor)
    (features : List Feature) : Except Error (List Feature) := do
  let entries ← featureEntries describe features
  o.orderWith (← o.describedLaunchApi describe) entries

/-- The features in start order, with the manifests of a repository. -/
def orderFeatures [Readers] (o : Orderer) (machine : Machine) (p : Repository)
    (features : List Feature) : Except Error (List Feature) :=
  o.orderFeaturesBy (p.describe machine) features

end Orderer

/-- The orderer that a configuration describes, with a directory for the membership files that
the environment may name. -/
def Configuration.orderer (c : Configuration) (machine : Machine) (override : Option String) :
    Except Error Orderer := do
  let filters ← c.regions.toList.mapM (Region.filter machine override)
  let artifact ← Error.readArtifact c.launch.artifact
  let launchExports ← c.launch.exports.mapM ExportEntry.package
  let version ← Error.readVersion c.platform.version
  let exports ← c.platform.exports.mapM ExportEntry.package
  return {
    filters
    framework := Module.synthetic
      { symbolicName := Text.trimmed c.platform.symbolicName, version } .framework exports
    launchArtifact := artifact
    launchApi := Orderer.launchModule artifact launchExports }

end StartOrder
