import StartOrder.Error
import StartOrder.Filter.Grammar
import StartOrder.Manifest
import StartOrder.Text.Alphanumeric

/-!
# Validation of manifests

The validation reads every name, version, range and filter of a manifest and lists what is wrong
with it, in the order of the entries.

## Main definitions

* `Manifest.isSymbolicName`: the form of names
* `Manifest.complaints`: everything that is wrong with a manifest
-/

namespace StartOrder.Manifest

/-- The greatest length of a name in bytes. -/
def nameLimit : Nat := 255

/-- Whether a text is a name: parts of letters, digits, dashes and underscores with dots between
them, none of them empty. Blanks around the name do not count. -/
def isSymbolicName (name : String) : Bool :=
  let s := Text.trimmed name
  !s.isEmpty && s.utf8ByteSize ≤ nameLimit &&
    (s.toList.splitOn '.').all fun part =>
      !part.isEmpty && part.all fun c => Text.isAlphanumeric c || c == '-' || c == '_'

/-- Whether a text denotes a version. -/
def isVersion (text : String) : Bool :=
  (Version.parse text).isOk

/-- Whether a text denotes a range. A text that is missing does. -/
def isRange (text : Option String) : Bool :=
  text.all fun t => (Version.Range.parse t).isOk

/-- A remark, unless `ok` holds. -/
def remarkUnless (ok : Bool) (c : Complaint) : List Complaint :=
  if ok then [] else [c]

/-- What is wrong with the exports, where `seen` are the names of those before. -/
def exportComplaints (seen : List String) : List ExportEntry → List Complaint
  | [] => []
  | e :: es =>
    let name := Text.trimmed e.name
    remarkUnless (isSymbolicName e.name) (.exportName e.name) ++
      remarkUnless (!seen.contains name) (.repeatedExport e.name) ++
      remarkUnless (isVersion e.version) (.exportVersion e.version e.name) ++
      exportComplaints (name :: seen) es

/-- What is wrong with an import. -/
def importComplaints (e : ImportEntry) : List Complaint :=
  remarkUnless (isSymbolicName e.name) (.importName e.name) ++
    remarkUnless (isRange e.version) (.importRange (e.version.getD "") e.name)

/-- What is wrong with the host of a fragment. -/
def hostComplaints (e : HostEntry) : List Complaint :=
  remarkUnless (isSymbolicName e.symbolicName) (.hostName e.symbolicName) ++
    remarkUnless (isRange e.version) (.hostRange (e.version.getD ""))

/-- What is wrong with the namespace of a capability or requirement. -/
def namespaceComplaints (e : ContractEntry) : List Complaint :=
  remarkUnless (!(Text.trim e.ns.toList).isEmpty) .blankNamespace

/-- What is wrong with the filter of a requirement. -/
def filterComplaints (e : ContractEntry) : List Complaint :=
  match (e.directives.get? Vocabulary.filter).map Filter.parse with
  | some (.error m) => [.filter m]
  | _ => []

/-- Everything that is wrong with a manifest. -/
def complaints (m : Manifest) : List Complaint :=
  remarkUnless (isSymbolicName m.symbolicName) (.symbolicName m.symbolicName) ++
    remarkUnless (isVersion m.version) (.version m.version) ++
    exportComplaints [] m.exports ++
    m.imports.flatMap importComplaints ++
    m.host.toList.flatMap hostComplaints ++
    (m.capabilities ++ m.requirements).flatMap namespaceComplaints ++
    m.requirements.flatMap filterComplaints

end StartOrder.Manifest
