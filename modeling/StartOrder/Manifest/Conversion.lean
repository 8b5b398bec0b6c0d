import StartOrder.Binary64.Shortest
import StartOrder.Error
import StartOrder.Manifest

/-!
# From manifests to modules

Every entry of a manifest becomes a contract of the module. An exported package and the module
itself become capabilities, an imported package and the host become requirements whose filters
test the name and, if there is a range, the version.

## Main definitions

* `Manifest.identity`, `Manifest.toModule`: the identity and the module that a manifest describes
* `ImportEntry.requirement`, `HostEntry.requirement`: the requirements of the entries
* `Manifest.typedAttributes`: attributes whose types are part of their names
-/

namespace StartOrder

/-- The range that a text denotes; a text that is missing or blank sets no bounds. -/
def readBounds (text : Option String) : Except Error (Option Version.Range) :=
  match (text.map Text.trimmed).filter (!·.isEmpty) with
  | none => .ok none
  | some t => (Error.readRange t).map some

/-- The filter that asks for a name and for a version in a range, if one is given. -/
def nameFilter (nameKey name versionKey : String) (range : Option Version.Range) : String :=
  let clause := s!"({nameKey}={name})"
  match range with
  | none => clause
  | some r => s!"(&{clause}{r.filterText versionKey})"

/-- The requirement for an imported package. -/
def ImportEntry.requirement (e : ImportEntry) : Except Error Requirement := do
  let range ← readBounds e.version
  let filter := nameFilter Vocabulary.package (Text.trimmed e.name) Vocabulary.version range
  let directives := Dictionary.empty.insert Vocabulary.filter filter
  return {
    ns := Vocabulary.package
    directives := if e.isOptional then
      directives.insert Vocabulary.resolution Vocabulary.optional else directives }

/-- The requirement for the host of a fragment, which also keeps the name of the host. -/
def HostEntry.requirement (e : HostEntry) : Except Error Requirement := do
  let range ← readBounds e.version
  let name := Text.trimmed e.symbolicName
  let filter := nameFilter Vocabulary.host name Vocabulary.bundleVersion range
  return {
    ns := Vocabulary.host
    attributes := Dictionary.empty.insert Vocabulary.host (.text name)
    directives := Dictionary.empty.insert Vocabulary.filter filter }

namespace Manifest

/-! ## Attributes with types -/

/-- A single value as text. -/
def scalarText (name : String) : Document → Except Error String
  | .text s => .ok s
  | .integer n => .ok n.repr
  | .float x => .ok x.render
  | .boolean b => .ok (if b then "true" else "false")
  | _ => .error (.manifest (.notScalar name))

/-- The name of an attribute and the type that follows a colon, both without blanks. -/
def splitName (key : String) : String × Option String :=
  match Text.cut ':' key.toList with
  | some (name, type) =>
    (String.ofList (Text.trim name), some (String.ofList (Text.trim type)))
  | none => (Text.trimmed key, none)

/-- The value of an attribute by its type. Without a type a whole number is a number, a list is
a list of texts, and any other single value is a text. -/
def typedValue (name : String) (type : Option String) (d : Document) :
    Except Error AttributeValue :=
  match type, d with
  | some "Version", d => do return .version (← Error.readVersion (← scalarText name d))
  | some "Long", .integer n => .ok (.long n)
  | some "Long", d => do
    let s ← scalarText name d
    match Text.signed64? (Text.trim s.toList) with
    | some n => return .long n
    | none => throw (.manifest (.notLong name))
  | some "String", d => (scalarText name d).map .text
  | some "List<String>", .list items => (items.mapM (scalarText name)).map .list
  | none, .list items => (items.mapM (scalarText name)).map .list
  | some "List<String>", d => do
    let s ← scalarText name d
    return .list ((((s.toList.splitOn ',').map Text.trim).filter (!·.isEmpty)).map String.ofList)
  | some type, _ => .error (.manifest (.unsupportedType type name))
  | none, .integer n => .ok (.long n)
  | none, d => (scalarText name d).map .text

/-- Attributes whose types are part of their names. Of two that differ in the type alone, the
later one stands. -/
def typedAttributes (raw : Dictionary Document) : Except Error Attributes :=
  raw.entries.foldlM (fun attributes (key, d) => do
    let (name, type) := splitName key
    return attributes.insert name (← typedValue name type d)) ∅

/-- The capability that an entry describes. -/
def capability (e : ContractEntry) : Except Error Capability := do
  return { ns := e.ns, attributes := ← typedAttributes e.attributes, directives := e.directives }

/-- The requirement that an entry describes. -/
def requirement (e : ContractEntry) : Except Error Requirement := do
  return { ns := e.ns, attributes := ← typedAttributes e.attributes, directives := e.directives }

/-! ## Modules -/

/-- The identity that a manifest gives its module. -/
def identity (m : Manifest) : Except Error Identity := do
  return {
    group := m.group.getD ""
    symbolicName := Text.trimmed m.symbolicName
    version := ← Error.readVersion m.version }

/-- The capability of an exported package. -/
def exported (i : Identity) (e : ExportEntry) : Except Error Capability := do
  return i.packageCapability ⟨Text.trimmed e.name, ← Error.readVersion e.version⟩

/-- The capabilities that stand for the whole module. A fragment has none. -/
def nameCapabilities (m : Manifest) (i : Identity) : List Capability :=
  if m.isFragment then []
  else [i.nameCapability Vocabulary.bundle, i.nameCapability Vocabulary.host]

/-- The module that a manifest describes. -/
def toModule (m : Manifest) : Except Error Module := do
  let identity ← m.identity
  let packages ← m.exports.mapM (exported identity)
  let provided ← m.capabilities.mapM capability
  let imported ← m.imports.mapM ImportEntry.requirement
  let hosts ← m.host.toList.mapM HostEntry.requirement
  let required ← m.requirements.mapM requirement
  return {
    identity
    capabilities := packages ++ m.nameCapabilities identity ++ provided
    requirements := imported ++ hosts ++ required }

/-- The manifest that a text holds, which has to have a name. -/
def parse [Readers] (text : String) : Except Error Manifest := do
  let some m := (Readers.document? .toml text).bind (Manifest.ofDocument? .toml)
    | throw (.manifest .unparsed)
  if (Text.trim m.symbolicName.toList).isEmpty then throw (.manifest .unnamed)
  return m

end Manifest

end StartOrder
