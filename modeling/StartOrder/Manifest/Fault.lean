import StartOrder.Filter.Fault

/-!
# Faults of manifests

Why a manifest cannot be used, and what its validation complains of.

## Main definitions

* `Manifest.Complaint`, `Manifest.Complaint.message`: one remark of the validation
* `Manifest.Fault`, `Manifest.Fault.message`: why a manifest is refused
-/

namespace StartOrder.Manifest

/-- A remark of the validation of a manifest. -/
inductive Complaint where
  | symbolicName (name : String)
  | version (text : String)
  | exportName (name : String)
  | repeatedExport (name : String)
  | exportVersion (text name : String)
  | importName (name : String)
  | importRange (text name : String)
  | hostName (name : String)
  | hostRange (text : String)
  | blankNamespace
  | filter (m : Filter.Malformed)
deriving DecidableEq, Repr

/-- The wording of a remark. -/
def Complaint.message : Complaint → String
  | symbolicName name =>
    s!"Invalid symbolic name: {name} (dot-separated alphanumeric tokens expected)"
  | version text => s!"Invalid version format: {text}"
  | exportName name => s!"Invalid export package name: {name}"
  | repeatedExport name => s!"Package {name} exported more than once"
  | exportVersion text name => s!"Invalid version {text} for export {name}"
  | importName name => s!"Invalid import package name: {name}"
  | importRange text name => s!"Invalid version range {text} for import {name}"
  | hostName name => s!"Invalid fragment host: {name}"
  | hostRange text => s!"Invalid version range {text} for fragment host"
  | blankNamespace => "Capability or requirement with empty namespace"
  | filter m => m.message

/-- Whether a remark is about a version or a range. -/
def Complaint.isAboutVersions : Complaint → Bool
  | version _ | exportVersion _ _ | importRange _ _ | hostRange _ => true
  | _ => false

/-- Why a manifest is refused. -/
inductive Fault where
  /-- The text is no document, or the document holds no manifest. -/
  | unparsed
  /-- The file at the path holds no text. -/
  | unread (path : String)
  /-- The file at the path has more bytes than allowed. -/
  | oversized (path : String) (size limit : Nat)
  /-- The symbolic name is blank. -/
  | unnamed
  /-- The validation has remarks, and remarks are not allowed. -/
  | invalid (complaints : List Complaint)
  /-- The attribute is to be a number of 64 bits and is none. -/
  | notLong (name : String)
  /-- The attribute has a type that is not known. -/
  | unsupportedType (type name : String)
  /-- The attribute is to be a single value and is none. -/
  | notScalar (name : String)
deriving DecidableEq, Repr

/-- The wording of a refusal. -/
def Fault.message : Fault → String
  | unparsed => "Failed to parse manifest TOML"
  | unread path => s!"Failed to read manifest file {path}"
  | oversized path size limit => s!"{path} is {size} bytes, limit is {limit}"
  | unnamed => "Symbolic name cannot be empty"
  | invalid complaints => String.intercalate "; " (complaints.map Complaint.message)
  | notLong name => s!"Attribute {name} is not a Long"
  | unsupportedType type name => s!"Unsupported attribute type {type} for {name}"
  | notScalar name => s!"Attribute {name} must be a scalar value"

end StartOrder.Manifest
