import StartOrder.Files
import StartOrder.Manifest.Conversion
import StartOrder.Manifest.Validation

/-!
# The repository of manifests

The manifest of an artifact lies in a directory of its own, named by group, artifact and version,
or as a file with artifact and version in its name. Apart from this a repository can be scanned:
every file with the extension `toml` directly in it, and every file `module.toml` in the
directories below, is the manifest of a module.

## Main definitions

* `Repository`, `Descriptor`: a repository, and a manifest found in it
* `Repository.candidates`, `Repository.describe`: looking an artifact up
* `Repository.manifestFiles`, `Repository.discover`: scanning
-/

namespace StartOrder

/-- A directory of manifests. A strict one refuses manifests of which the validation complains. -/
structure Repository where
  directory : String := "modules"
  strict : Bool := false
deriving DecidableEq, Repr

/-- A manifest with the artifact it describes and the path at which it was found. -/
structure Descriptor where
  artifact : Artifact
  location : String
  manifest : Manifest
deriving Repr

namespace Repository

/-- The name of a manifest in a directory of its own. -/
def manifestName : String := "module.toml"

/-- The extension of a manifest directly in the repository. -/
def extension : List Char := ".toml".toList

/-- The greatest size of a manifest in bytes. -/
def sizeLimit : Nat := 64 * 1024

/-- The paths at which the manifest of an artifact may lie, in order. -/
def candidates (p : Repository) (a : Artifact) : List String :=
  let groups := ((a.group.toList.splitOn '.').filter (!·.isEmpty)).map String.ofList
  [(groups ++ [a.artifact, a.version, manifestName]).foldl Path.join p.directory,
    Path.join p.directory s!"{a.artifact}-{a.version}.toml"]

/-- The manifest in a file at a path. -/
def load [Readers] (p : Repository) (path : String) (content : FileContent) :
    Except Error Manifest := do
  if sizeLimit < content.size then
    throw (.manifest (.oversized path content.size sizeLimit))
  match content with
  | .binary _ => throw (.manifest (.unread path))
  | .text s =>
    let m ← Manifest.parse s
    if p.strict && !m.complaints.isEmpty then throw (.manifest (.invalid m.complaints))
    return m

/-- The manifest of an artifact, from the first path at which there is a file. -/
def describe [Readers] (p : Repository) (machine : Machine) (a : Artifact) :
    Except Error Descriptor := do
  match (p.candidates a).findSome? fun path => (machine.fileAt? path).map (path, ·) with
  | none => throw (.noManifest a (p.candidates a))
  | some (location, content) =>
    return { artifact := a, location, manifest := ← p.load location content }

/-! ## Scanning -/

/-- A file that was found, with the names that lead to it. -/
abbrev Found := List String × FileContent

mutual
/-- The manifests in a directory that lies below the repository. -/
def manifestsBelow (names : List String) : FileTree → List Found
  | .file _ => []
  | .directory es => manifestsAmong names es

/-- The manifests among the entries of a directory below the repository. -/
def manifestsAmong (names : List String) : List (String × FileTree) → List Found
  | [] => []
  | (name, .file content) :: es =>
    (if name = manifestName then [(names ++ [name], content)] else []) ++ manifestsAmong names es
  | (name, .directory sub) :: es =>
    manifestsBelow (names ++ [name]) (.directory sub) ++ manifestsAmong names es
end

/-- Whether a name ends with the extension of a manifest and has something before it. -/
def hasExtension (name : String) : Bool :=
  extension.isSuffixOf name.toList && extension.length < name.length

/-- The manifests among the entries of the repository itself. -/
def manifestFiles : List (String × FileTree) → List Found
  | [] => []
  | (name, .file content) :: es =>
    (if hasExtension name then [([name], content)] else []) ++ manifestFiles es
  | (name, .directory sub) :: es =>
    manifestsBelow [name] (.directory sub) ++ manifestFiles es

/-- The manifest in a file that was found, described by what it says of itself. -/
def descriptor? [Readers] (p : Repository) (f : Found) : Option Descriptor :=
  let location := f.1.foldl Path.join p.directory
  if Path.isImpossible location then none
  else match p.load location f.2 with
  | .error _ => none
  | .ok m => some {
      artifact := ⟨m.group.getD "", m.symbolicName, m.version⟩
      location
      manifest := m }

/-- All manifests of a repository that can be loaded, in the order of their names. A repository
that does not exist has none. -/
def discover [Readers] (p : Repository) (machine : Machine) : Except Error (List Descriptor) :=
  match machine.locate p.directory with
  | .error _ => .ok []
  | .ok (.file _) => .error .file
  | .ok (.directory es) =>
    .ok (((manifestFiles es).mergeSort fun a b => ¬ b.1 < a.1).filterMap p.descriptor?)

end Repository

end StartOrder
