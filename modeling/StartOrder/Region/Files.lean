import StartOrder.Error
import StartOrder.Files
import StartOrder.Region.Visibility

/-!
# Membership files

The membership is kept in four property files of one directory. A file that is missing records
nothing. In the file of identities a value is a symbolic name and a version with a tilde between
them; in the other files a value is a list with commas.

## Main definitions

* `Region.Settings`: the directory, the names of the files and the policy
* `Region.load`: the membership that the files record
* `Region.filter`: the region filter that settings describe
-/

namespace StartOrder.Region

/-- Where the membership is kept and how it is applied. -/
structure Settings where
  directory : String := "regions"
  identities : String := "idbsnver.properties"
  bundles : String := "bundles.properties"
  features : String := "features.properties"
  regions : String := "regions.properties"
  policy : Policy := .failOpen
deriving DecidableEq, Repr

/-- The directory that counts: one that the environment names, unless the name is blank. -/
def Settings.effectiveDirectory (s : Settings) (override : Option String) : String :=
  (override.filter fun d => !(Text.trim d.toList).isEmpty).getD s.directory

/-- The symbolic name and version that a text denotes. -/
def readIdentity (text : String) : Except IdentityFault (String × Version) :=
  match Text.cut '~' text.toList with
  | none => .error (.noTilde text)
  | some (name, version) =>
    if (Text.trim name).isEmpty then .error (.noName text)
    else do
      let v ← (Version.read version).mapError .version
      return (String.ofList (Text.trim name), v)

/-- The entries of the property file at a path, none if there is no file. -/
def entriesAt (machine : Machine) (path : String) : Except Error (Option (Dictionary String)) :=
  match machine.textAt path with
  | .error _ => .error .file
  | .ok none => .ok none
  | .ok (some s) => ((Properties.parse s).map some).mapError fun e => .membership path (.escape e)

/-- Add what the file `name` of the directory records, entry by entry in the order of keys. -/
def addFile (machine : Machine) (directory name : String)
    (add : Membership → String → String → Except Fault Membership) (m : Membership) :
    Except Error Membership := do
  let path := Path.join directory name
  let entries := ((← entriesAt machine path).getD Dictionary.empty).entries
  entries.foldlM (fun m (key, value) => (add m key value).mapError (.membership path)) m

/-- Record an entry of the file of identities. -/
def addIdentity (m : Membership) (artifact value : String) : Except Fault Membership := do
  let (name, version) ← (readIdentity value).mapError (.identity artifact)
  return m.addIdentity artifact name version

/-- The membership that the files of a directory record. -/
def load (machine : Machine) (directory : String) (s : Settings) : Except Error Membership := do
  let m ← addFile machine directory s.identities addIdentity {}
  let m ← addFile machine directory s.bundles
    (fun m key value => .ok (m.addBundle key (Properties.items value))) m
  let m ← addFile machine directory s.features
    (fun m key value => .ok (m.addFeature key (Properties.items value))) m
  addFile machine directory s.regions
    (fun m key value => .ok (m.addRegion key (Properties.items value))) m

/-- The region filter that settings describe. -/
def filter (machine : Machine) (override : Option String) (s : Settings) :
    Except Error RegionFilter := do
  return ⟨← load machine (s.effectiveDirectory override) s, s.policy⟩

end StartOrder.Region
