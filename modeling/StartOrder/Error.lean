import StartOrder.Manifest.Fault
import StartOrder.Region.Fault
import StartOrder.Text.Quoted
import StartOrder.Version.Range
import StartOrder.Wiring.Failure

/-!
# Errors

Every way in which an operation of this library fails, by cause, and the wording of each. A
document or file that cannot be read at all has no wording of its own.

## Main definitions

* `Error`, `Error.message?`
-/

namespace StartOrder

/-- Why an operation fails. -/
inductive Error where
  /-- A requirement has a match expression that is none. -/
  | filter (m : Filter.Malformed)
  /-- A module cannot be resolved. -/
  | unresolvable (f : Wiring.Failure)
  /-- No manifest for the artifact lies at any of the paths. -/
  | noManifest (artifact : Artifact) (searched : List String)
  /-- A fragment requires more than one host. -/
  | severalHosts (module : Identity) (count : Nat)
  | manifest (f : Manifest.Fault)
  | version (f : Version.Fault)
  /-- The text denotes no artifact. -/
  | artifact (text : String)
  /-- The membership file at the path is refused. -/
  | membership (path : String) (f : Region.Fault)
  /-- A document does not hold what it should hold. -/
  | document
  /-- A file cannot be read. -/
  | file
deriving DecidableEq, Repr

/-- The wording of an error, for those that have one. -/
def Error.message? : Error → Option String
  | filter m => some m.message
  | unresolvable f => some f.message
  | noManifest a searched =>
    some s!"Unable to find file for {a.render} (searched {Text.quotedList searched})"
  | severalHosts m count =>
    some s!"Fragment {m.render} declares {count} host requirements, only one is supported"
  | manifest f => some s!"Invalid module manifest: {f.message}"
  | version f => some s!"Invalid version: {f.message}"
  | artifact text => some s!"Invalid artifact id: {text}"
  | membership path f => some s!"Invalid membership file {Text.quoted path}: {f.message}"
  | document => none
  | file => none

namespace Error

/-- The wording of an error, empty where there is none. -/
def text (e : Error) : String :=
  e.message?.getD ""

/-- A version that is read, or the error that it is none. -/
def readVersion (text : String) : Except Error Version :=
  (Version.parse text).mapError version

/-- A range that is read, or the error that it is none. -/
def readRange (text : String) : Except Error Version.Range :=
  (Version.Range.parse text).mapError version

/-- Coordinates that are read, or the error that they are none. -/
def readArtifact (text : String) : Except Error Artifact :=
  match Artifact.parse? text with
  | some a => .ok a
  | none => .error (artifact (Text.trimmed text))

end Error

end StartOrder
