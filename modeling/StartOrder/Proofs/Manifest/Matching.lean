import StartOrder.Manifest.Conversion
import StartOrder.Manifest.Validation
import StartOrder.Proofs.Version.Range
import StartOrder.Wiring.Provider

/-!
# Imports and exports

What a manifest imports becomes a requirement whose filter asks for the name and for a version in
the range, and what it exports becomes a capability with that name and that version. The filter is
a text, into which the name and the bounds of the range are written as they are. Names that pass the
validation have none of the characters of filters, so the text is read as it was meant. In the end
a package is accepted exactly when the names are equal and the version is in the range, whatever
blanks stood around them, and fragments find their hosts in the same way.

## Main definitions

* `nameCondition`: the filter that asks for a name and for a version in a range
* `Manifest.Admits`: the text of a range includes the text of a version
* `Requirement.AcceptsWhen`: when a requirement accepts a capability

## Main results

* `Manifest.not_mem_of_isSymbolicName`: the characters of valid names
* `accepts_nameFilter`: what the filter for a name and a range accepts
* `Manifest.acceptsWhen_of_toModule`: imports match exports, and fragments match hosts
-/

namespace StartOrder

/-! ## Names -/

theorem mem_of_mem_intercalate {c : Char} {sep : List Char} {parts : List (List Char)}
    (h : c ∈ sep.intercalate parts) : c ∈ sep ∨ ∃ p ∈ parts, c ∈ p := by
  induction parts with
  | nil => simp at h
  | cons p parts ih =>
    cases parts with
    | nil =>
      rw [List.intercalate_singleton] at h
      exact .inr ⟨p, List.mem_cons_self, h⟩
    | cons q parts =>
      rw [List.intercalate_cons_cons, List.mem_append, List.mem_append] at h
      rcases h with (h | h) | h
      · exact .inr ⟨p, List.mem_cons_self, h⟩
      · exact .inl h
      · exact (ih h).imp_right fun ⟨p', hp', hc⟩ => ⟨p', List.mem_cons_of_mem _ hp', hc⟩

/-- **The characters of valid names** are none of those by which filters are told apart. -/
theorem Manifest.not_mem_of_isSymbolicName {name : String} (h : isSymbolicName name = true) :
    ∀ c ∈ (Text.trimmed name).toList, c ∉ ['(', ')', '*', '\\'] := by
  unfold isSymbolicName at h
  obtain ⟨-, hparts⟩ := Bool.and_eq_true_iff.1 h
  intro c hc hmem
  have hsplit : ['.'].intercalate ((Text.trimmed name).toList.splitOn '.') =
      (Text.trimmed name).toList := List.intercalate_splitOn '.'
  rw [← hsplit] at hc
  rcases mem_of_mem_intercalate hc with hdot | ⟨p, hp, hcp⟩
  · obtain rfl := List.mem_singleton.1 hdot
    exact absurd hmem (by decide)
  · have hchar := List.all_eq_true.1
      (Bool.and_eq_true_iff.1 (List.all_eq_true.1 hparts p hp)).2 c hcp
    simp only [List.mem_cons, List.not_mem_nil, or_false] at hmem
    rcases hmem with rfl | rfl | rfl | rfl <;> exact absurd hchar (by decide +kernel)

/-! ## Filters for names and ranges -/

section Filters

variable {a : Attributes} {nameKey versionKey name text : String} {v : Version}
  {range : Option Version.Range}

/-- The filter that asks for a name and for a version in a range, if one is given. -/
def nameCondition (nameKey name versionKey : String) (range : Option Version.Range) : Filter :=
  let clause := Filter.compare nameKey .equal name
  match range with
  | none => clause
  | some r => .all [clause, r.condition versionKey]

theorem derives_nameFilter (hnameKey : Filter.Names nameKey.toList nameKey)
    (hversionKey : Filter.Names versionKey.toList versionKey)
    (hname : ∀ c ∈ name.toList, c ∉ ['(', ')', '*', '\\']) (hrange : ∀ r ∈ range, r.WellFormed) :
    Filter.Derives (nameFilter nameKey name versionKey range).toList
      (nameCondition nameKey name versionKey range) := by
  have hclause := Filter.derives_compare hnameKey .equal hname
  cases range with
  | none => simpa [nameFilter, nameCondition, toString, Filter.sign] using hclause
  | some r =>
    have hboth := hclause.both (Version.Range.derives_filterText hversionKey (hrange r rfl))
    simpa [nameFilter, nameCondition, toString, Filter.sign] using hboth

theorem accepts_nameCondition (hname : Filter.lookup a nameKey = some (.text text))
    (hversion : Filter.lookup a versionKey = some (.version v))
    (hrange : ∀ r ∈ range, r.WellFormed) :
    Filter.accepts a (nameCondition nameKey name versionKey range) =
      (text == name && range.all (·.includes v)) := by
  have hclause : Filter.accepts a (.compare nameKey .equal name) = (text == name) := by
    rw [Filter.accepts, hname]
    rfl
  cases range with
  | none => simpa [nameCondition] using hclause
  | some r =>
    simp [nameCondition, hclause, Version.Range.accepts_condition hversion (hrange r rfl)]

/-- **What the filter for a name and a range accepts.** -/
theorem accepts_nameFilter {r : Requirement} (hfilter : r.filter? = some
      (nameFilter nameKey name versionKey range))
    (hnameKey : Filter.Names nameKey.toList nameKey)
    (hversionKey : Filter.Names versionKey.toList versionKey)
    (hname : ∀ c ∈ name.toList, c ∉ ['(', ')', '*', '\\']) (hrange : ∀ r ∈ range, r.WellFormed)
    (htext : Filter.lookup a nameKey = some (.text text))
    (hversion : Filter.lookup a versionKey = some (.version v)) :
    r.accepts a = .ok (text == name && range.all (·.includes v)) := by
  have hparse := Filter.parse_of_derives (derives_nameFilter hnameKey hversionKey hname hrange)
  rw [Requirement.accepts, Requirement.predicate, hfilter]
  dsimp only
  rw [hparse, ← accepts_nameCondition htext hversion hrange]
  rfl

end Filters

/-! ## Ranges -/

theorem Version.Range.read_trim (s : List Char) : read (Text.trim s) = read s := by
  rw [read, Text.trim_trim, ← read]

theorem Version.Range.parse_trimmed (t : String) : parse (Text.trimmed t) = parse t := by
  rw [parse, Text.trimmed, String.toList_ofList, read_trim, ← parse]

/-- A text is read as a range unless it is blank. -/
theorem readBounds_some (t : String) : readBounds (some t) =
    if (Text.trimmed t).isEmpty then .ok none else (Error.readRange t).map some := by
  unfold readBounds
  rw [Option.map_some, Option.filter_some, Error.readRange, ← Version.Range.parse_trimmed,
    ← Error.readRange]
  cases (Text.trimmed t).isEmpty <;> rfl

/-- The range of an entry is the one that its text denotes. -/
theorem readBounds_of_parse {t : String} {r : Version.Range} (h : Version.Range.parse t = .ok r) :
    readBounds (some t) = .ok (some r) := by
  -- Blanks alone are taken for no range, but they do not denote one either.
  have hne : ¬ (Text.trimmed t).isEmpty = true := by
    intro hempty
    have hnil : Text.trim t.toList = [] := by
      simpa [Text.trimmed] using hempty
    rw [Version.Range.parse, ← Version.Range.read_trim, hnil] at h
    cases h
  rw [readBounds_some, if_neg hne, Error.readRange, h]
  rfl

namespace Manifest

/-- The text of a range, if there is one, includes the text of a version. -/
def Admits (range : Option String) (version : String) : Prop :=
  ∀ t ∈ range, ∃ r v, Version.Range.parse t = .ok r ∧ Version.parse version = .ok v ∧
    r.includes v = true

/-- The range that is read for a valid entry includes what the entry admits. -/
theorem admits_of_readBounds {text : Option String} {range : Option Version.Range}
    (h : isRange text = true) (hrange : readBounds text = .ok range) :
    (∀ r ∈ range, r.WellFormed) ∧ ∀ {version v}, Version.parse version = .ok v →
      (range.all (·.includes v) = true ↔ Admits text version) := by
  cases text with
  | none =>
    obtain rfl := Except.ok.inj hrange
    exact ⟨by simp, by simp [Admits]⟩
  | some t =>
    obtain ⟨r, hr⟩ := exists_eq_ok_of_isOk (x := Version.Range.parse t) h
    rw [readBounds_of_parse hr] at hrange
    obtain rfl := Except.ok.inj hrange
    refine ⟨?_, fun {version v} hv => ?_⟩
    · intro r' hr'
      obtain rfl := Option.some.inj hr'
      exact Version.Range.wellFormed_of_parse hr
    · simp [Admits, hr, hv]

/-! ## The contracts of a module -/

variable {m m' : Manifest} {M M' : Module} {i j : Nat}

/-- The contracts of a module are those of the entries, in their order. -/
theorem of_toModule (h : m.toModule = .ok M) : ∃ packages provided imported hosts required,
    m.identity = .ok M.identity ∧ m.exports.mapM (exported M.identity) = .ok packages ∧
      m.imports.mapM ImportEntry.requirement = .ok imported ∧
      m.host.toList.mapM HostEntry.requirement = .ok hosts ∧
      m.requirements.mapM requirement = .ok required ∧
      M.capabilities = packages ++ m.nameCapabilities M.identity ++ provided ∧
      M.requirements = imported ++ hosts ++ required := by
  obtain ⟨identity, hidentity, h⟩ := bind_eq_ok_iff.1 h
  obtain ⟨packages, hpackages, h⟩ := bind_eq_ok_iff.1 h
  obtain ⟨provided, -, h⟩ := bind_eq_ok_iff.1 h
  obtain ⟨imported, himported, h⟩ := bind_eq_ok_iff.1 h
  obtain ⟨hosts, hhosts, h⟩ := bind_eq_ok_iff.1 h
  obtain ⟨required, hrequired, h⟩ := bind_eq_ok_iff.1 h
  obtain rfl := Except.ok.inj h
  exact ⟨packages, provided, imported, hosts, required, hidentity, hpackages, himported, hhosts,
    hrequired, rfl, rfl⟩

/-- The requirement for an imported package is at the position of the entry. -/
theorem exists_import (h : m.toModule = .ok M) {e : ImportEntry} (he : m.imports[i]? = some e) :
    ∃ r, M.requirements[i]? = some r ∧ e.requirement = .ok r := by
  obtain ⟨_, _, imported, hosts, required, -, -, himported, -, -, -, hM⟩ := of_toModule h
  obtain ⟨r, hr, her⟩ := getElem?_of_mapM_eq_ok himported he
  refine ⟨r, ?_, her⟩
  rw [hM, List.append_assoc, List.getElem?_append_left (List.getElem?_eq_some_iff.1 hr).1, hr]

/-- The requirement for the host of a fragment comes behind those for packages. -/
theorem exists_host (h : m.toModule = .ok M) {k : HostEntry} (hk : m.host = some k) :
    ∃ r, M.requirements[m.imports.length]? = some r ∧ k.requirement = .ok r := by
  obtain ⟨_, _, imported, hosts, required, -, -, himported, hhosts, -, -, hM⟩ := of_toModule h
  rw [hk] at hhosts
  obtain ⟨r, hr, hkr⟩ := getElem?_of_mapM_eq_ok (i := 0) hhosts rfl
  refine ⟨r, ?_, hkr⟩
  rw [hM, List.append_assoc, (forall₂_of_mapM_eq_ok himported).length_eq,
    List.getElem?_append_right le_rfl, Nat.sub_self,
    List.getElem?_append_left (List.getElem?_eq_some_iff.1 hr).1, hr]

/-- The capability of an exported package is at the position of the entry. -/
theorem exists_export (h : m.toModule = .ok M) {x : ExportEntry} (hx : m.exports[j]? = some x) :
    ∃ v, Version.parse x.version = .ok v ∧
      M.capabilities[j]? = some (M.identity.packageCapability ⟨Text.trimmed x.name, v⟩) := by
  obtain ⟨packages, provided, _, _, _, -, hpackages, -, -, -, hM, -⟩ := of_toModule h
  obtain ⟨c, hc, hxc⟩ := getElem?_of_mapM_eq_ok hpackages hx
  obtain ⟨v, hv, hxc⟩ := bind_eq_ok_iff.1 hxc
  obtain rfl := Except.ok.inj hxc
  refine ⟨v, mapError_eq_ok_iff.1 hv, ?_⟩
  rw [hM, List.append_assoc, List.getElem?_append_left (List.getElem?_eq_some_iff.1 hc).1, hc]

/-- The capability for fragments comes behind those of packages and that of the whole module. -/
theorem exists_nameCapability (h : m.toModule = .ok M) (hplain : m.host = none) :
    M.identity.symbolicName = Text.trimmed m.symbolicName ∧
      Version.parse m.version = .ok M.identity.version ∧
      M.capabilities[m.exports.length + 1]? =
        some (M.identity.nameCapability Vocabulary.host) := by
  obtain ⟨packages, provided, _, _, _, hidentity, hpackages, -, -, -, hM, -⟩ := of_toModule h
  obtain ⟨v, hv, hidentity⟩ := bind_eq_ok_iff.1 hidentity
  have hidentity := Except.ok.inj hidentity
  have hnames : m.nameCapabilities M.identity = [M.identity.nameCapability Vocabulary.bundle,
      M.identity.nameCapability Vocabulary.host] := by
    rw [nameCapabilities, isFragment, hplain]
    rfl
  refine ⟨by rw [← hidentity], ?_, ?_⟩
  · rw [← hidentity]
    exact mapError_eq_ok_iff.1 hv
  · rw [hM, hnames, List.append_assoc, (forall₂_of_mapM_eq_ok hpackages).length_eq,
      List.getElem?_append_right (Nat.le_add_right _ 1), Nat.add_sub_cancel_left]
    rfl

/-! ## What a requirement asks for -/

/-- The requirement for a package asks for the name and the range of the entry. -/
theorem filter_of_import {e : ImportEntry} {r : Requirement} (h : e.requirement = .ok r) :
    ∃ range, readBounds e.version = .ok range ∧ r.ns = Vocabulary.package ∧
      r.filter? = some
        (nameFilter Vocabulary.package (Text.trimmed e.name) Vocabulary.version range) := by
  obtain ⟨range, hrange, h⟩ := bind_eq_ok_iff.1 h
  obtain rfl := Except.ok.inj h
  refine ⟨range, hrange, rfl, ?_⟩
  rw [Requirement.filter?]
  dsimp only
  split
  · rw [Dictionary.get?_insert, if_neg (by decide), Dictionary.get?_insert, if_pos rfl]
  · rw [Dictionary.get?_insert, if_pos rfl]

/-- The requirement for a host asks for the name and the range of the entry. -/
theorem filter_of_host {k : HostEntry} {r : Requirement} (h : k.requirement = .ok r) :
    ∃ range, readBounds k.version = .ok range ∧ r.ns = Vocabulary.host ∧
      r.filter? = some
        (nameFilter Vocabulary.host (Text.trimmed k.symbolicName) Vocabulary.bundleVersion
          range) := by
  obtain ⟨range, hrange, h⟩ := bind_eq_ok_iff.1 h
  obtain rfl := Except.ok.inj h
  refine ⟨range, hrange, rfl, ?_⟩
  rw [Requirement.filter?]
  dsimp only
  rw [Dictionary.get?_insert, if_pos rfl]

/-! ## Valid manifests -/

theorem remarkUnless_eq_nil_iff {ok : Bool} {c : Complaint} :
    remarkUnless ok c = [] ↔ ok = true := by
  unfold remarkUnless
  split <;> simp_all

/-- A manifest is valid when there is no remark on any of its entries. -/
theorem complaints_eq_nil_iff : m.complaints = [] ↔
    isSymbolicName m.symbolicName = true ∧ isVersion m.version = true ∧
      exportComplaints [] m.exports = [] ∧ (∀ e ∈ m.imports, importComplaints e = []) ∧
        (∀ e ∈ m.host.toList, hostComplaints e = []) ∧
          (∀ e ∈ m.capabilities ++ m.requirements, namespaceComplaints e = []) ∧
            ∀ e ∈ m.requirements, filterComplaints e = [] := by
  simp only [complaints, List.append_eq_nil_iff, List.flatMap_eq_nil_iff, remarkUnless_eq_nil_iff,
    and_assoc]

/-- A valid manifest only imports packages by valid names and ranges. -/
theorem valid_of_import (h : m.complaints = []) {e : ImportEntry} (he : e ∈ m.imports) :
    isSymbolicName e.name = true ∧ isRange e.version = true := by
  obtain ⟨-, -, -, himports, -⟩ := complaints_eq_nil_iff.1 h
  have himport := himports e he
  rw [importComplaints, List.append_eq_nil_iff, remarkUnless_eq_nil_iff,
    remarkUnless_eq_nil_iff] at himport
  exact himport

/-- A valid manifest only names its host by a valid name and a range. -/
theorem valid_of_host (h : m.complaints = []) {k : HostEntry} (hk : m.host = some k) :
    isSymbolicName k.symbolicName = true ∧ isRange k.version = true := by
  obtain ⟨-, -, -, -, hhosts, -⟩ := complaints_eq_nil_iff.1 h
  have hhost := hhosts k (Option.mem_toList.2 hk)
  rw [hostComplaints, List.append_eq_nil_iff, remarkUnless_eq_nil_iff,
    remarkUnless_eq_nil_iff] at hhost
  exact hhost

end Manifest

/-! ## What a capability offers -/

namespace Identity

/-- The capability of a package has its name and its version. -/
theorem get?_packageCapability (i : Identity) (e : PackageExport) :
    (i.packageCapability e).attributes.get? Vocabulary.package = some (.text e.name) ∧
      (i.packageCapability e).attributes.get? Vocabulary.version = some (.version e.version) := by
  simp [packageCapability, Dictionary.ofList, Vocabulary.package, Vocabulary.version,
    Vocabulary.bundleSymbolicName, Vocabulary.bundleVersion]

/-- The capability for fragments has the name and the version of the module. -/
theorem get?_nameCapability (i : Identity) :
    (i.nameCapability Vocabulary.host).attributes.get? Vocabulary.host =
        some (.text i.symbolicName) ∧
      (i.nameCapability Vocabulary.host).attributes.get? Vocabulary.bundleVersion =
        some (.version i.version) := by
  simp [nameCapability, Dictionary.ofList, Vocabulary.host, Vocabulary.bundleVersion]

end Identity

/-! ## Imports and exports -/

/-- Both contracts are in the namespace `ns`, and the requirement accepts the capability exactly
when `P` holds. -/
def Requirement.AcceptsWhen (r : Requirement) (ns : String) (c : Capability) (P : Prop) : Prop :=
  r.ns = ns ∧ c.ns = ns ∧ ∃ b, r.accepts c.attributes = .ok b ∧ (b = true ↔ P)

namespace Manifest

variable {m m' : Manifest} {M M' : Module}

/-- The attributes that the filters of entries test have names that can stand in filters. -/
theorem names_of_mem {key : String} (h : key ∈
      [Vocabulary.package, Vocabulary.version, Vocabulary.host, Vocabulary.bundleVersion]) :
    Filter.Names key.toList key := by
  simp only [List.mem_cons, List.not_mem_nil, or_false] at h
  rcases h with rfl | rfl | rfl | rfl <;> exact Filter.names_toList (by decide) rfl

/-- A requirement that asks for the name and the range of a valid entry accepts a capability with
that name and a version in that range. -/
theorem acceptsWhen_of_filter {r : Requirement} {c : Capability} {key versionKey : String}
    {name text version : String} {bounds : Option String} {range : Option Version.Range}
    {v : Version} (hkey : Filter.Names key.toList key)
    (hversionKey : Filter.Names versionKey.toList versionKey) (hname : isSymbolicName name = true)
    (hrange : isRange bounds = true) (hbounds : readBounds bounds = .ok range) (hns : r.ns = key)
    (hfilter : r.filter? = some (nameFilter key (Text.trimmed name) versionKey range))
    (hcns : c.ns = key) (htext : c.attributes.get? key = some (.text text))
    (hversion : c.attributes.get? versionKey = some (.version v))
    (hv : Version.parse version = .ok v) :
    r.AcceptsWhen key c (Text.trimmed name = text ∧ Admits bounds version) := by
  obtain ⟨hwellFormed, hadmits⟩ := admits_of_readBounds hrange hbounds
  have haccepts := accepts_nameFilter hfilter hkey hversionKey (not_mem_of_isSymbolicName hname)
    hwellFormed (Filter.lookup_of_get? htext) (Filter.lookup_of_get? hversion)
  refine ⟨hns, hcns, _, haccepts, ?_⟩
  rw [Bool.and_eq_true, beq_iff_eq, hadmits hv, eq_comm]

/-- **Imports match exports.** Where the manifest `m` is valid, the requirement for each package
that it imports accepts the capability of a package that `m'` exports exactly when the names are
equal and the version of the export is in the range of the import, if there is one. In the same way
the requirement for its host accepts the capability of `m'` for fragments. -/
theorem acceptsWhen_of_toModule (hvalid : m.complaints = []) (h : m.toModule = .ok M)
    (h' : m'.toModule = .ok M') :
    (∀ (i j : Nat) (e : ImportEntry) (x : ExportEntry), m.imports[i]? = some e →
      m'.exports[j]? = some x → ∃ (r : Requirement) (c : Capability),
        M.requirements[i]? = some r ∧ M'.capabilities[j]? = some c ∧
          r.AcceptsWhen Vocabulary.package c
            (Text.trimmed e.name = Text.trimmed x.name ∧ Admits e.version x.version)) ∧
    ∀ k : HostEntry, m.host = some k → m'.host = none →
      ∃ (r : Requirement) (c : Capability), M.requirements[m.imports.length]? = some r ∧
        M'.capabilities[m'.exports.length + 1]? = some c ∧
          r.AcceptsWhen Vocabulary.host c
            (Text.trimmed k.symbolicName = Text.trimmed m'.symbolicName ∧
              Admits k.version m'.version) := by
  constructor
  · intro i j e x he hx
    obtain ⟨r, hr, her⟩ := exists_import h he
    obtain ⟨v, hv, hc⟩ := exists_export h' hx
    obtain ⟨hname, hrange⟩ := valid_of_import hvalid (List.mem_of_getElem? he)
    obtain ⟨range, hbounds, hns, hfilter⟩ := filter_of_import her
    obtain ⟨htext, hversion⟩ := M'.identity.get?_packageCapability ⟨Text.trimmed x.name, v⟩
    exact ⟨r, _, hr, hc, acceptsWhen_of_filter (names_of_mem (by simp)) (names_of_mem (by simp))
      hname hrange hbounds hns hfilter rfl htext hversion hv⟩
  · intro k hk hplain
    obtain ⟨r, hr, hkr⟩ := exists_host h hk
    obtain ⟨hsame, hv, hc⟩ := exists_nameCapability h' hplain
    obtain ⟨hname, hrange⟩ := valid_of_host hvalid hk
    obtain ⟨range, hbounds, hns, hfilter⟩ := filter_of_host hkr
    obtain ⟨htext, hversion⟩ := M'.identity.get?_nameCapability
    rw [← hsame]
    exact ⟨r, _, hr, hc, acceptsWhen_of_filter (names_of_mem (by simp)) (names_of_mem (by simp))
      hname hrange hbounds hns hfilter rfl htext hversion hv⟩

/-- A fragment of the server that imports its interface below the second version. -/
def extension : Manifest where
  symbolicName := "extension"
  version := "1"
  imports := [{ name := " api ", version := some "[1.0,2.0)" }]
  host := some { symbolicName := "server", version := some "(1.7,1.8]" }

/-- A server with an interface. -/
def serving : Manifest where
  symbolicName := "server"
  version := " 1.7.0.rc-1"
  exports := [{ name := "api", version := "1.4" }]

/-- The interface is imported, and the server is a host, since its qualifier puts it behind the
bound that is left out. -/
theorem acceptsWhen_of_toModule_extension :
    ∃ M M', extension.toModule = .ok M ∧ serving.toModule = .ok M' ∧
      (∃ r c, M.requirements[0]? = some r ∧ M'.capabilities[0]? = some c ∧
        r.accepts c.attributes = .ok true) ∧
      ∃ r c, M.requirements[1]? = some r ∧ M'.capabilities[2]? = some c ∧
        r.accepts c.attributes = .ok true := by
  obtain ⟨M, h⟩ := exists_eq_ok_of_isOk (x := extension.toModule) (by decide +kernel)
  obtain ⟨M', h'⟩ := exists_eq_ok_of_isOk (x := serving.toModule) (by decide +kernel)
  have hvalid : extension.complaints = [] := by decide +kernel
  obtain ⟨himports, hhosts⟩ := acceptsWhen_of_toModule hvalid h h'
  obtain ⟨r, c, hr, hc, -, -, b, hb, hiff⟩ := himports 0 0 _ _ rfl rfl
  obtain ⟨r', c', hr', hc', -, -, b', hb', hiff'⟩ := hhosts _ rfl rfl
  have hadmits : Admits (some "[1.0,2.0)") "1.4" := by
    rintro _ ⟨⟩
    exact ⟨⟨{ major := 1 }, true, some { major := 2 }, false⟩, { major := 1, minor := 4 },
      by decide +kernel, by decide +kernel, by decide +kernel⟩
  have hadmits' : Admits (some "(1.7,1.8]") " 1.7.0.rc-1" := by
    rintro _ ⟨⟩
    exact ⟨⟨{ major := 1, minor := 7 }, false, some { major := 1, minor := 8 }, true⟩,
      { major := 1, minor := 7, qualifier := "rc-1" }, by decide +kernel, by decide +kernel,
      by decide +kernel⟩
  obtain rfl := hiff.2 ⟨by decide +kernel, hadmits⟩
  obtain rfl := hiff'.2 ⟨by decide +kernel, hadmits'⟩
  exact ⟨M, M', h, h', ⟨r, c, hr, hc, hb⟩, r', c', hr', hc', hb'⟩

end Manifest

end StartOrder
