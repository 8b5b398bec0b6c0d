import StartOrder.Proofs.Manifest.Matching
import StartOrder.Proofs.Manifest.Typing

/-!
# Validation and conversion agree

A manifest is validated before it is converted, and both walk over the same entries. They agree on
versions and ranges, except that a blank range is refused by the one and taken for no range by the
other. The validation does not look at the attributes of capabilities and requirements, which may
have types that do not exist or values that do not fit, so a valid manifest is converted exactly
when its attributes fit their types. The filters of the module that comes out of a valid manifest
are all well formed.

## Main definitions

* `Manifest.IsBounds`: a text sets bounds, or is blank and sets none
* `Manifest.Complaint.isAboutBlanks`: a remark on a blank range

## Main results

* `Manifest.exists_toModule_iff`: when a manifest is converted
* `Manifest.exists_toModule_iff_complaints`: a manifest without attributes is converted when its
  validation has no remark on versions and ranges, other than on blank ranges
* `Manifest.exists_toModule_iff_of_valid`: a valid manifest is converted when its attributes fit
-/

namespace StartOrder

namespace Manifest

variable {m : Manifest}

/-! ## When a manifest is converted -/

/-- The text of a range, if there is one, is blank or denotes a range. -/
def IsBounds (text : Option String) : Prop :=
  ∀ t ∈ text, (Text.trimmed t).isEmpty = true ∨ (Version.Range.parse t).isOk = true

theorem isBounds_some {t : String} : IsBounds (some t) ↔
    (Text.trimmed t).isEmpty = true ∨ (Version.Range.parse t).isOk = true := by
  simp [IsBounds]

theorem exists_readBounds_iff {text : Option String} :
    (∃ range, readBounds text = .ok range) ↔ IsBounds text := by
  cases text with
  | none => simp [readBounds, IsBounds]
  | some t =>
    rw [isBounds_some, readBounds_some]
    split
    · next hblank => exact ⟨fun _ => .inl hblank, fun _ => ⟨none, rfl⟩⟩
    · next hblank =>
      simp only [or_iff_right hblank, isOk_iff, Error.readRange, map_eq_ok_iff, mapError_eq_ok_iff]
      constructor
      · rintro ⟨_, r, hr, -⟩
        exact ⟨r, hr⟩
      · rintro ⟨r, hr⟩
        exact ⟨some r, r, hr, rfl⟩

theorem exists_readVersion_iff {text : String} :
    (∃ v, Error.readVersion text = .ok v) ↔ isVersion text = true := by
  simp only [isVersion, isOk_iff, Error.readVersion, mapError_eq_ok_iff]

theorem exists_identity_iff : (∃ i, m.identity = .ok i) ↔ isVersion m.version = true := by
  rw [← exists_readVersion_iff]
  exact exists_bind_pure_eq_ok_iff

theorem exists_exported_iff {i : Identity} {e : ExportEntry} :
    (∃ c, exported i e = .ok c) ↔ isVersion e.version = true := by
  rw [← exists_readVersion_iff]
  exact exists_bind_pure_eq_ok_iff

theorem exists_importRequirement_iff {e : ImportEntry} :
    (∃ r, e.requirement = .ok r) ↔ IsBounds e.version := by
  rw [← exists_readBounds_iff]
  exact exists_bind_pure_eq_ok_iff

theorem exists_hostRequirement_iff {e : HostEntry} :
    (∃ r, e.requirement = .ok r) ↔ IsBounds e.version := by
  rw [← exists_readBounds_iff]
  exact exists_bind_pure_eq_ok_iff

/-- **When a manifest is converted.** Its versions are versions, its ranges are blank or ranges, and
the attributes of its entries fit their types. -/
theorem exists_toModule_iff : (∃ M, m.toModule = .ok M) ↔
    (isVersion m.version = true ∧ ∀ e ∈ m.exports, isVersion e.version = true) ∧
      ((∀ e ∈ m.imports, IsBounds e.version) ∧ ∀ e ∈ m.host.toList, IsBounds e.version) ∧
        ∀ e ∈ m.capabilities ++ m.requirements, e.Fits := by
  have hsteps : (∃ M, m.toModule = .ok M) ↔ isVersion m.version = true ∧
      (∀ e ∈ m.exports, isVersion e.version = true) ∧ (∀ e ∈ m.capabilities, e.Fits) ∧
        (∀ e ∈ m.imports, IsBounds e.version) ∧ (∀ e ∈ m.host.toList, IsBounds e.version) ∧
          ∀ e ∈ m.requirements, e.Fits := by
    -- No step depends on what an earlier one gives, as far as success is concerned.
    unfold toModule
    simp only [exists_bind_pure_eq_ok_iff, exists_bind_eq_ok_iff, exists_and_right,
      exists_mapM_eq_ok_iff, exists_identity_iff, exists_exported_iff, exists_capability_iff,
      exists_importRequirement_iff, exists_hostRequirement_iff, exists_requirement_iff]
  rw [hsteps, List.forall_mem_append]
  constructor
  · rintro ⟨hversion, hexports, hcapabilities, himports, hhost, hrequirements⟩
    exact ⟨⟨hversion, hexports⟩, ⟨himports, hhost⟩, hcapabilities, hrequirements⟩
  · rintro ⟨⟨hversion, hexports⟩, ⟨himports, hhost⟩, hcapabilities, hrequirements⟩
    exact ⟨hversion, hexports, hcapabilities, himports, hhost, hrequirements⟩

/-! ## Remarks on versions and ranges -/

/-- Whether a remark is about the range of an import or a host and that range is blank. -/
def Complaint.isAboutBlanks : Complaint → Bool
  | importRange text _ | hostRange text => (Text.trimmed text).isEmpty
  | _ => false

theorem forall_mem_remarkUnless {P : Complaint → Prop} {ok : Bool} {c : Complaint} :
    (∀ c' ∈ remarkUnless ok c, P c') ↔ (ok = true ∨ P c) := by
  unfold remarkUnless
  split <;> simp_all

theorem forall_mem_exportComplaints {seen : List String} {es : List ExportEntry} :
    (∀ c ∈ exportComplaints seen es, c.isAboutVersions = true → c.isAboutBlanks = true) ↔
      ∀ e ∈ es, isVersion e.version = true := by
  induction es generalizing seen with
  | nil => simp [exportComplaints]
  | cons e es ih =>
    rw [exportComplaints, List.forall_mem_append, ih, List.forall_mem_cons]
    simp only [List.forall_mem_append, forall_mem_remarkUnless]
    simp [Complaint.isAboutVersions, Complaint.isAboutBlanks]

/-- The remarks on a name and a range, of which the one on the range is on blanks if it is blank. -/
theorem forall_mem_rangeComplaints {ok : Bool} {c c' : Complaint} {text : Option String}
    (hname : c.isAboutVersions = false) (hrange : c'.isAboutVersions = true)
    (hblank : c'.isAboutBlanks = (Text.trimmed (text.getD "")).isEmpty) :
    (∀ x ∈ remarkUnless ok c ++ remarkUnless (isRange text) c',
      x.isAboutVersions = true → x.isAboutBlanks = true) ↔ IsBounds text := by
  rw [List.forall_mem_append, forall_mem_remarkUnless, forall_mem_remarkUnless, hname, hrange,
    hblank]
  cases text with
  | none => simp [isRange, IsBounds]
  | some t => simp [isRange, isBounds_some, or_comm]

theorem forall_mem_importComplaints {e : ImportEntry} :
    (∀ c ∈ importComplaints e, c.isAboutVersions = true → c.isAboutBlanks = true) ↔
      IsBounds e.version :=
  forall_mem_rangeComplaints rfl rfl rfl

theorem forall_mem_hostComplaints {e : HostEntry} :
    (∀ c ∈ hostComplaints e, c.isAboutVersions = true → c.isAboutBlanks = true) ↔
      IsBounds e.version :=
  forall_mem_rangeComplaints rfl rfl rfl

theorem isAboutVersions_of_mem_filterComplaints {e : ContractEntry} {c : Complaint}
    (h : c ∈ filterComplaints e) : c.isAboutVersions = false := by
  unfold filterComplaints at h
  split at h
  · obtain rfl := List.mem_singleton.1 h
    rfl
  · cases h

/-- **What the remarks say of versions and ranges.** Apart from blank ranges, they are all in
order. -/
theorem forall_mem_complaints :
    (∀ c ∈ m.complaints, c.isAboutVersions = true → c.isAboutBlanks = true) ↔
      (isVersion m.version = true ∧ ∀ e ∈ m.exports, isVersion e.version = true) ∧
        (∀ e ∈ m.imports, IsBounds e.version) ∧ ∀ e ∈ m.host.toList, IsBounds e.version := by
  -- A remark on a filter is never about versions, even if the filter compares them.
  have hfilters : ∀ e ∈ m.requirements, ∀ c ∈ filterComplaints e,
      c.isAboutVersions = true → c.isAboutBlanks = true := by
    intro e _ c hc habout
    rw [isAboutVersions_of_mem_filterComplaints hc] at habout
    cases habout
  rw [complaints, List.forall_mem_append, List.forall_mem_flatMap, and_iff_left hfilters]
  simp only [List.forall_mem_append, List.forall_mem_flatMap, forall_mem_remarkUnless,
    forall_mem_exportComplaints, forall_mem_importComplaints, forall_mem_hostComplaints,
    namespaceComplaints]
  simp [Complaint.isAboutVersions, Complaint.isAboutBlanks, and_assoc]

/-- **Validation and conversion agree on versions and ranges.** A manifest without capabilities and
requirements of its own is converted when all remarks of its validation on versions and ranges are
on blank ranges, which count as no ranges. -/
theorem exists_toModule_iff_complaints (hcapabilities : m.capabilities = [])
    (hrequirements : m.requirements = []) : (∃ M, m.toModule = .ok M) ↔
      ∀ c ∈ m.complaints, c.isAboutVersions = true → c.isAboutBlanks = true := by
  rw [exists_toModule_iff, forall_mem_complaints, hcapabilities, hrequirements]
  simp [and_assoc]

/-- A package is imported with blanks for a range. -/
def blankRange : Manifest where
  symbolicName := "a"
  version := "1"
  imports := [{ name := "p", version := some " " }]

/-- A blank range is refused by the validation alone. -/
theorem exists_toModule_blankRange :
    blankRange.capabilities = [] ∧ blankRange.requirements = [] ∧
      blankRange.complaints = [.importRange " " "p"] ∧ ∃ M, blankRange.toModule = .ok M :=
  ⟨rfl, rfl, by decide +kernel, exists_eq_ok_of_isOk (by decide +kernel)⟩

/-- A fragment with a name that is none, with blanks around its versions, and with a range for its
host that is blank. -/
def padded : Manifest where
  symbolicName := "plug in"
  version := " 1.2 "
  exports := [{ name := "api", version := "3" }]
  imports := [{ name := "io", version := some " [1 , 2) " }]
  host := some { symbolicName := "server", version := some "\t" }

/-- The padded fragment is converted, although two remarks are made on it. -/
theorem exists_toModule_padded :
    padded.complaints = [.symbolicName "plug in", .hostRange "\t"] ∧
      ∃ M, padded.toModule = .ok M :=
  ⟨by decide +kernel, (exists_toModule_iff_complaints rfl rfl).2 (by decide +kernel)⟩

/-! ## Valid manifests -/

/-- A valid manifest only has filters that are well formed. -/
theorem exists_parse_of_valid (h : m.complaints = []) {e : ContractEntry}
    (he : e ∈ m.requirements) {text : String}
    (htext : e.directives.get? Vocabulary.filter = some text) :
    ∃ f, Filter.parse text = .ok f := by
  obtain ⟨-, -, -, -, -, -, hfilters⟩ := complaints_eq_nil_iff.1 h
  have hfilter := hfilters e he
  rw [filterComplaints, htext, Option.map_some] at hfilter
  cases hparse : Filter.parse text with
  | error x =>
    rw [hparse] at hfilter
    cases hfilter
  | ok f => exact ⟨f, rfl⟩

/-- The filter for a valid name and a range is well formed. -/
theorem exists_parse_nameFilter {nameKey name versionKey : String} {bounds : Option String}
    {range : Option Version.Range} (hnameKey : Filter.Names nameKey.toList nameKey)
    (hversionKey : Filter.Names versionKey.toList versionKey) (hname : isSymbolicName name = true)
    (hbounds : isRange bounds = true) (hrange : readBounds bounds = .ok range) :
    ∃ f, Filter.parse (nameFilter nameKey (Text.trimmed name) versionKey range) = .ok f := by
  obtain ⟨hwellFormed, -⟩ := admits_of_readBounds hbounds hrange
  exact ⟨_, Filter.parse_of_derives (derives_nameFilter hnameKey hversionKey
    (not_mem_of_isSymbolicName hname) hwellFormed)⟩

/-- The filters of a module are well formed when its manifest is valid. -/
theorem exists_parse_of_mem_requirements {M : Module} (h : m.complaints = [])
    (hM : m.toModule = .ok M) {r : Requirement} (hr : r ∈ M.requirements) {text : String}
    (htext : r.filter? = some text) : ∃ f, Filter.parse text = .ok f := by
  obtain ⟨_, _, imported, hosts, required, -, -, himported, hhosts, hrequired, -, hM⟩ :=
    of_toModule hM
  rw [hM, List.mem_append, List.mem_append] at hr
  rcases hr with (hr | hr) | hr
  · obtain ⟨e, he, her⟩ := (mem_iff_of_mapM_eq_ok himported).1 hr
    obtain ⟨hname, hbounds⟩ := valid_of_import h he
    obtain ⟨range, hrange, -, hfilter⟩ := filter_of_import her
    obtain rfl := Option.some.inj (hfilter.symm.trans htext)
    exact exists_parse_nameFilter (names_of_mem (by simp)) (names_of_mem (by simp)) hname hbounds
      hrange
  · obtain ⟨k, hk, hkr⟩ := (mem_iff_of_mapM_eq_ok hhosts).1 hr
    obtain ⟨hname, hbounds⟩ := valid_of_host h (Option.mem_toList.1 hk)
    obtain ⟨range, hrange, -, hfilter⟩ := filter_of_host hkr
    obtain rfl := Option.some.inj (hfilter.symm.trans htext)
    exact exists_parse_nameFilter (names_of_mem (by simp)) (names_of_mem (by simp)) hname hbounds
      hrange
  · obtain ⟨e, he, her⟩ := (mem_iff_of_mapM_eq_ok hrequired).1 hr
    obtain ⟨a, -, her⟩ := bind_eq_ok_iff.1 her
    obtain rfl := Except.ok.inj her
    exact exists_parse_of_valid h he htext

/-- **Valid manifests are converted when their attributes fit.** The module then has well-formed
filters only. -/
theorem exists_toModule_iff_of_valid (h : m.complaints = []) :
    ((∃ M, m.toModule = .ok M) ↔ ∀ e ∈ m.capabilities ++ m.requirements, e.Fits) ∧
      ∀ M, m.toModule = .ok M → ∀ r ∈ M.requirements, ∀ text, r.filter? = some text →
        ∃ f, Filter.parse text = .ok f := by
  constructor
  · obtain ⟨hversions, hranges⟩ := forall_mem_complaints.1 (by rw [h]; exact List.forall_mem_nil _)
    rw [exists_toModule_iff, and_iff_right hversions, and_iff_right hranges]
  · intro M hM r hr text htext
    exact exists_parse_of_mem_requirements h hM hr htext

/-- A capability has an attribute of a type that does not exist. -/
def unknownType : Manifest where
  symbolicName := "a"
  version := "1"
  capabilities := [
    { ns := "disk", attributes := Dictionary.ofList [("weight:Double", .text "1.5")] }]

/-- A type that does not exist is refused by the conversion alone. -/
theorem toModule_unknownType : unknownType.complaints = [] ∧
    unknownType.toModule = .error (.manifest (.unsupportedType "Double" "weight")) :=
  ⟨by decide +kernel, rfl⟩

/-- A fragment that has a disk and needs a larger one, both with sizes that are written as texts. -/
def sized : Manifest where
  symbolicName := "a"
  version := "1"
  imports := [{ name := "io", version := some "[1,2)" }]
  host := some { symbolicName := "server" }
  capabilities := [
    { ns := "disk", attributes := Dictionary.ofList [("size:Long", .text " 40 ")] }]
  requirements := [
    { ns := "disk"
      attributes := Dictionary.ofList [("since: Version", .text "1.5"), ("tags", .list [])]
      directives := Dictionary.ofList [("filter", "(size>=64)")] }]

/-- The fragment with the disk is valid and its sizes are numbers, so it is converted. -/
theorem exists_toModule_sized : sized.complaints = [] ∧ ∃ M, sized.toModule = .ok M ∧
    ∀ r ∈ M.requirements, ∀ text, r.filter? = some text → ∃ f, Filter.parse text = .ok f := by
  have hvalid : sized.complaints = [] := by decide +kernel
  obtain ⟨hiff, hfilters⟩ := exists_toModule_iff_of_valid hvalid
  obtain ⟨M, hM⟩ := hiff.2 (by decide +kernel)
  exact ⟨hvalid, M, hM, hfilters M hM⟩

end Manifest

end StartOrder
