import Mathlib.Data.Set.Basic
import StartOrder.Proofs.Region.Visibility
import StartOrder.Proofs.Success
import StartOrder.Region.Files

/-!
# What has been recorded

A membership is put together step by step, by hand or from the entries of four property files.
Each step states some facts, and a membership holds exactly the facts that its steps have stated.
So what a region filter lets through is decided by these facts: the order of the steps, steps that
come twice, and what was stated in one step or in several make no difference.

## Main definitions

* `Membership.Step`, `Membership.ofSteps`: steps of recording, and what they come to
* `Membership.Fact`, `Membership.Step.facts`, `Membership.facts`: what steps state
* `Membership.Records`: a membership holds a fact
* `RegionFilter.Visible F policy g r c`: by the facts `F` the owner of `r` may see `c`
* `Region.Written machine directory s step`: an entry of a membership file stands for the step

## Main results

* `Membership.records_apply`, `Membership.records_ofSteps`: what a step, and what steps record
* `RegionFilter.sees_iff_visible`: a region filter is a function of facts
* `Region.exists_steps_of_load`: files are read as steps
* `RegionFilter.keep_eq_filter`: what a region filter keeps
-/

namespace StartOrder

/-! ## Steps and facts -/

namespace Membership

/-- One step of recording. -/
inductive Step where
  /-- An artifact carries a symbolic name and a version. -/
  | identity (artifact symbolicName : String) (version : Version)
  /-- An artifact belongs to features. -/
  | bundle (artifact : String) (features : List String)
  /-- A feature is in regions, or in none. -/
  | feature (feature : String) (regions : List String)
  /-- A region lists packages. -/
  | region (region : String) (packages : List String)
deriving DecidableEq, Repr

/-- A membership with one more step recorded. -/
def apply (m : Membership) : Step → Membership
  | .identity artifact name version => m.addIdentity artifact name version
  | .bundle artifact features => m.addBundle artifact features
  | .feature x regions => m.addFeature x regions
  | .region region packages => m.addRegion region packages

/-- The membership that steps come to. -/
def ofSteps (steps : List Step) : Membership :=
  steps.foldl apply {}

/-- What can be known of artifacts, features, regions and packages. -/
inductive Fact where
  | carries (artifact symbolicName : String) (version : Version)
  | belongs (artifact feature : String)
  /-- It has been said in which regions a feature is, and be it in none. -/
  | placed (feature : String)
  | within (feature region : String)
  | offers (region package : String)
deriving DecidableEq, Repr

/-- The facts that a step states. -/
def Step.facts : Step → List Fact
  | .identity artifact name version => [.carries artifact name version]
  | .bundle artifact features => features.map (.belongs artifact)
  | .feature x regions => .placed x :: regions.map (.within x)
  | .region name packages => packages.map (.offers name)

/-- The facts that steps state. -/
def facts (steps : Set Step) : Set Fact :=
  {fact | ∃ step ∈ steps, fact ∈ step.facts}

/-- A membership holds a fact. -/
def Records (m : Membership) : Fact → Prop
  | .carries artifact name version => (artifact, name, version) ∈ m.identities
  | .belongs artifact x => ∃ features, m.features.get? artifact = some features ∧
      features.contains x = true
  | .placed x => ∃ regions, m.regions.get? x = some regions
  | .within x region => ∃ regions, m.regions.get? x = some regions ∧
      regions.contains region = true
  | .offers region package => ∃ packages, m.packages.get? region = some packages ∧
      packages.contains package = true

variable {m : Membership} {step : Step} {steps : List Step} {fact : Fact}

/-! ## What a step records -/

theorem contains_ofList {xs : List String} {x : String} :
    (Names.ofList xs).contains x = true ↔ x ∈ xs := by
  rw [Names.ofList, Names.contains_foldl_insert, Names.contains_empty]
  simp

/-- The names of a key grow by those that are recorded for it. -/
theorem contains_record {d : Dictionary Names} {key key' x : String} {names : List String} :
    (∃ all, (record d key names).get? key' = some all ∧ all.contains x = true) ↔
      (∃ all, d.get? key' = some all ∧ all.contains x = true) ∨ key' = key ∧ x ∈ names := by
  rw [record, Dictionary.get?_insert]
  by_cases hkey : key' = key
  · subst hkey
    rw [if_pos rfl]
    constructor
    · rintro ⟨all, hall, hx⟩
      rw [← Option.some.inj hall, Names.contains_union, contains_ofList] at hx
      rcases hx with hx | hx
      · left
        cases hold : d.get? key' with
        | none => simp [hold] at hx
        | some old => exact ⟨old, rfl, by simpa [hold] using hx⟩
      · exact .inr ⟨rfl, hx⟩
    · intro h
      refine ⟨_, rfl, ?_⟩
      rw [Names.contains_union, contains_ofList]
      rcases h with ⟨old, hold, hx⟩ | ⟨-, hx⟩
      · left
        rwa [hold]
      · exact .inr hx
  · rw [if_neg hkey]
    simp [hkey]

/-- A key counts as recorded even if no name is. -/
theorem exists_get?_record {d : Dictionary Names} {key key' : String} {names : List String} :
    (∃ all, (record d key names).get? key' = some all) ↔
      (∃ all, d.get? key' = some all) ∨ key' = key := by
  rw [record, Dictionary.get?_insert]
  by_cases hkey : key' = key <;> simp [hkey]

theorem mem_identities_addIdentity {artifact name : String} {version : Version}
    {e : String × String × Version} : e ∈ (m.addIdentity artifact name version).identities ↔
      e ∈ m.identities ∨ e = (artifact, name, version) := by
  unfold addIdentity
  split
  · next hmem =>
    constructor
    · exact .inl
    · rintro (h | rfl)
      · exact h
      · exact hmem
  · rw [List.mem_append, List.mem_singleton]

/-- **A step records the facts that it states**, and changes nothing else. -/
theorem records_apply : (m.apply step).Records fact ↔ m.Records fact ∨ fact ∈ step.facts := by
  -- Each step changes one table, and each fact is read off one table.
  cases step with
  | identity artifact name version =>
    have htables : (m.apply (.identity artifact name version)).features = m.features ∧
        (m.apply (.identity artifact name version)).regions = m.regions ∧
        (m.apply (.identity artifact name version)).packages = m.packages := by
      simp only [apply, addIdentity]
      split <;> exact ⟨rfl, rfl, rfl⟩
    obtain ⟨hfeatures, hregions, hpackages⟩ := htables
    cases fact with
    | carries => simp [Records, apply, mem_identities_addIdentity, Step.facts]
    | belongs => simp [Records, hfeatures, Step.facts]
    | placed => simp [Records, hregions, Step.facts]
    | within => simp [Records, hregions, Step.facts]
    | offers => simp [Records, hpackages, Step.facts]
  | bundle artifact features =>
    cases fact with
    | belongs artifact' x =>
      simp only [Records, apply, addBundle, contains_record, Step.facts, List.mem_map,
        Fact.belongs.injEq]
      grind
    | carries | placed | within | offers => simp [Records, apply, addBundle, Step.facts]
  | feature x regions =>
    cases fact with
    | placed x' => simp [Records, apply, addFeature, exists_get?_record, Step.facts]
    | within x' region =>
      simp only [Records, apply, addFeature, contains_record, Step.facts, List.mem_cons,
        List.mem_map, Fact.within.injEq]
      grind
    | carries | belongs | offers => simp [Records, apply, addFeature, Step.facts]
  | region region packages =>
    cases fact with
    | offers region' package =>
      simp only [Records, apply, addRegion, contains_record, Step.facts, List.mem_map,
        Fact.offers.injEq]
      grind
    | carries | belongs | placed | within => simp [Records, apply, addRegion, Step.facts]

theorem records_foldl_apply : (steps.foldl apply m).Records fact ↔
    m.Records fact ∨ fact ∈ facts {step | step ∈ steps} := by
  induction steps generalizing m with
  | nil => simp [facts]
  | cons step steps ih =>
    rw [List.foldl_cons, ih, records_apply, or_assoc]
    simp [facts]

theorem not_records_empty : ¬ ({} : Membership).Records fact := by
  cases fact with
  | carries => exact List.not_mem_nil
  | belongs => rintro ⟨_, h, -⟩; cases h
  | placed => rintro ⟨_, h⟩; cases h
  | within => rintro ⟨_, h, -⟩; cases h
  | offers => rintro ⟨_, h, -⟩; cases h

/-- **A membership records the facts that its steps state.** -/
theorem records_ofSteps : (ofSteps steps).Records fact ↔ fact ∈ facts {step | step ∈ steps} := by
  rw [ofSteps, records_foldl_apply, or_iff_right not_records_empty]

/-- By the facts `F` a module with the identity has a feature: an artifact with its symbolic name
and version belongs to the feature. -/
def HasFeature (F : Set Fact) (i : Identity) (x : String) : Prop :=
  ∃ artifact, .carries artifact i.symbolicName i.version ∈ F ∧ .belongs artifact x ∈ F

theorem holds_iff_hasFeature {i : Identity} {x : String} :
    m.Holds i x ↔ HasFeature {fact | m.Records fact} i x := by
  constructor
  · rintro ⟨artifact, features, hcarries, hget, hx⟩
    exact ⟨artifact, hcarries, features, hget, hx⟩
  · rintro ⟨artifact, hcarries, features, hget, hx⟩
    exact ⟨artifact, features, hcarries, hget, hx⟩

end Membership

/-! ## Region filters -/

namespace RegionFilter

open StartOrder.Membership (Fact HasFeature)

variable {f : RegionFilter} {g : Graph} {r : Requirement} {c : Capability} {x : String}

/-- By the facts `F` the owner of a requirement for a package may see a capability. The owners
need not be known, and then they have no features. -/
inductive Visible (F : Set Fact) (policy : Policy) (g : Graph) (r : Requirement) (c : Capability) :
    Prop
  /-- Everybody sees the platform. -/
  | platform {P} (hP : c.owner.bind g.get? = some P) (h : P.kind = .framework)
  /-- A module sees itself and modules with the same identity. -/
  | own {P R} (hP : c.owner.bind g.get? = some P) (hR : r.owner.bind g.get? = some R)
      (h : c.owner = r.owner ∨ P.identity = R.identity)
  /-- Modules of one feature see each other. -/
  | shared {P R x} (hP : c.owner.bind g.get? = some P) (hR : r.owner.bind g.get? = some R)
      (hPx : HasFeature F P.identity x) (hRx : HasFeature F R.identity x)
  /-- The package is in the region that everybody sees. -/
  | everywhere {package} (hc : c.text? Vocabulary.package = some package)
      (h : .offers Vocabulary.globalRegion package ∈ F)
  /-- The package is in a region of a feature of the module that requires it. -/
  | nearby {R x region package} (hc : c.text? Vocabulary.package = some package)
      (hR : r.owner.bind g.get? = some R) (hRx : HasFeature F R.identity x)
      (hx : .within x region ∈ F) (h : .offers region package ∈ F)
  /-- The policy opens what belongs to no known module. -/
  | unknown (hpolicy : policy = .failOpen) (hP : c.owner.bind g.get? = none)
  /-- The policy opens modules without features. -/
  | unassigned {P} (hpolicy : policy = .failOpen) (hP : c.owner.bind g.get? = some P)
      (h : ∀ x, ¬ HasFeature F P.identity x)
  /-- The policy opens modules with a feature that has not been placed. -/
  | unplaced {P x} (hpolicy : policy = .failOpen) (hP : c.owner.bind g.get? = some P)
      (hPx : HasFeature F P.identity x) (hx : .placed x ∉ F)

/-- The features of the module at a place, if there is one. -/
theorem contains_featuresAt {o : Option Module} : (f.featuresAt o).contains x = true ↔
    ∃ M, o = some M ∧ HasFeature {fact | f.membership.Records fact} M.identity x := by
  cases o with
  | none => simp [featuresAt]
  | some M =>
    simp only [featuresAt, Option.map_some, Option.getD_some, Membership.contains_featuresOf,
      Membership.holds_iff_hasFeature, Option.some_inj, exists_eq_left']

/-- The provider is the platform, the module itself or one with the same identity. -/
theorem isFamiliar_iff_exists : isFamiliar g r c = true ↔ ∃ P, c.owner.bind g.get? = some P ∧
    (P.kind = .framework ∨ ∃ R, r.owner.bind g.get? = some R ∧
      (c.owner = r.owner ∨ P.identity = R.identity)) := by
  cases hP : c.owner.bind g.get? with
  | none => simp [isFamiliar, hP]
  | some P =>
    simp only [isFamiliar, hP, Bool.or_eq_true, beq_iff_eq, Option.any_eq_true, Option.some_inj,
      exists_eq_left', or_assoc]
    refine or_congr_right ?_
    constructor
    · rintro (howner | ⟨R, hR, hsame⟩)
      · exact ⟨P, by rw [← howner, hP], .inl howner⟩
      · exact ⟨R, hR, .inr hsame.symm⟩
    · rintro ⟨R, hR, howner | hsame⟩
      · exact .inl howner
      · exact .inr ⟨R, hR, hsame.symm⟩

theorem not_records_placed : ¬ f.membership.Records (.placed x) ↔
    f.membership.regions.get? x = none := by
  rw [Option.eq_none_iff_forall_ne_some]
  exact not_exists

/-- A package is listed for a region of the features, or for the region that everybody sees. -/
theorem isListed_iff_exists {own : Names} : f.isListed c (f.regionsOf own) = true ↔
    ∃ package, c.text? Vocabulary.package = some package ∧
      (f.membership.Records (.offers Vocabulary.globalRegion package) ∨
        ∃ x region, own.contains x = true ∧ f.membership.Records (.within x region) ∧
          f.membership.Records (.offers region package)) := by
  simp only [isListed, Option.any_eq_true, Membership.isVisibleIn_iff, Membership.lists_iff,
    mem_regionsOf]
  refine exists_congr fun package => and_congr_right fun _ => ?_
  constructor
  · rintro ⟨region, rfl | ⟨x, regions, hx, hget, hregion⟩, hpackage⟩
    · exact .inl hpackage
    · exact .inr ⟨x, region, hx, ⟨regions, hget, hregion⟩, hpackage⟩
  · rintro (hpackage | ⟨x, region, hx, ⟨regions, hget, hregion⟩, hpackage⟩)
    · exact ⟨_, .inl rfl, hpackage⟩
    · exact ⟨region, .inr ⟨x, regions, hx, hget, hregion⟩, hpackage⟩

/-- **A region filter decides by the facts that its membership records.** -/
theorem sees_iff_visible : f.sees g r c = true ↔
    Visible {fact | f.membership.Records fact} f.policy g r c := by
  simp only [sees, Bool.or_eq_true, isFamiliar_iff_exists, Names.meets_iff, isUnclassified_iff,
    isListed_iff_exists, contains_featuresAt, ← not_records_placed]
  constructor
  · rintro (((⟨P, hP, h | ⟨R, hR, h⟩⟩ | ⟨x, ⟨P, hP, hPx⟩, R, hR, hRx⟩) | ⟨hpolicy, h⟩) |
      ⟨package, hc, h | ⟨x, region, ⟨R, hR, hRx⟩, hx, h⟩⟩)
    · exact .platform hP h
    · exact .own hP hR h
    · exact .shared hP hR hPx hRx
    · rcases h with h | ⟨x, ⟨P, hP, hPx⟩, hx⟩
      · cases hP : c.owner.bind g.get? with
        | none => exact .unknown hpolicy hP
        | some P => exact .unassigned hpolicy hP fun x hx => h x ⟨P, hP, hx⟩
      · exact .unplaced hpolicy hP hPx hx
    · exact .everywhere hc h
    · exact .nearby hc hR hRx hx h
  · intro h
    cases h with
    | platform hP h => exact .inl (.inl (.inl ⟨_, hP, .inl h⟩))
    | own hP hR h => exact .inl (.inl (.inl ⟨_, hP, .inr ⟨_, hR, h⟩⟩))
    | shared hP hR hPx hRx => exact .inl (.inl (.inr ⟨_, ⟨_, hP, hPx⟩, _, hR, hRx⟩))
    | everywhere hc h => exact .inr ⟨_, hc, .inl h⟩
    | nearby hc hR hRx hx h => exact .inr ⟨_, hc, .inr ⟨_, _, ⟨_, hR, hRx⟩, hx, h⟩⟩
    | unknown hpolicy hP =>
      refine .inl (.inr ⟨hpolicy, .inl ?_⟩)
      rintro x ⟨P, hP', -⟩
      rw [hP] at hP'
      cases hP'
    | unassigned hpolicy hP h =>
      refine .inl (.inr ⟨hpolicy, .inl ?_⟩)
      rintro x ⟨P', hP', hx⟩
      obtain rfl := Option.some.inj (hP.symm.trans hP')
      exact h x hx
    | unplaced hpolicy hP hPx hx => exact .inl (.inr ⟨hpolicy, .inr ⟨_, ⟨_, hP, hPx⟩, hx⟩⟩)

end RegionFilter

/-! ## Membership files -/

namespace Region

open StartOrder.Membership (Step)

variable {machine : Machine} {directory name : String} {s : Settings} {m m' : Membership}

/-- The file `name` has an entry. -/
def Entered (machine : Machine) (directory name : String) (e : String × String) : Prop :=
  ∃ d, entriesAt machine (Path.join directory name) = .ok (some d) ∧ d.get? e.1 = some e.2

/-- An entry of one of the four files stands for a step of recording. -/
inductive Written (machine : Machine) (directory : String) (s : Settings) : Step → Prop
  | identity {artifact value name version}
      (h : Entered machine directory s.identities (artifact, value))
      (hread : readIdentity value = .ok (name, version)) :
      Written machine directory s (.identity artifact name version)
  | bundle {artifact value} (h : Entered machine directory s.bundles (artifact, value)) :
      Written machine directory s (.bundle artifact (Properties.items value))
  | feature {x value} (h : Entered machine directory s.features (x, value)) :
      Written machine directory s (.feature x (Properties.items value))
  | region {region value} (h : Entered machine directory s.regions (region, value)) :
      Written machine directory s (.region region (Properties.items value))

/-- Adding entries one after the other is to read each as a step and to record the steps. -/
theorem foldlM_add {read : String × String → Except Fault Step}
    {add : Membership → String → String → Except Fault Membership}
    (hadd : ∀ m e, add m e.1 e.2 = (read e).map m.apply) {path : String}
    {entries : List (String × String)}
    (h : entries.foldlM (fun m e => (add m e.1 e.2).mapError (Error.membership path)) m =
      .ok m') :
    ∃ steps : List Step, m' = steps.foldl Membership.apply m ∧
      ∀ step, step ∈ steps ↔ ∃ e ∈ entries, read e = .ok step := by
  induction entries generalizing m with
  | nil =>
    obtain rfl := Except.ok.inj h
    exact ⟨[], rfl, by simp⟩
  | cons e entries ih =>
    rw [List.foldlM_cons, hadd] at h
    obtain ⟨m₁, hfirst, hrest⟩ := bind_eq_ok_iff.1 h
    cases hread : read e with
    | error fault =>
      rw [hread] at hfirst
      cases hfirst
    | ok step =>
      rw [hread] at hfirst
      obtain rfl : m.apply step = m₁ := Except.ok.inj hfirst
      obtain ⟨steps, rfl, hsteps⟩ := ih hrest
      refine ⟨step :: steps, rfl, fun step' => ?_⟩
      simp only [List.mem_cons, hsteps, exists_eq_or_imp, hread, Except.ok.injEq]
      rw [eq_comm]

/-- Adding a file is to record the steps for which its entries stand. -/
theorem addFile_ok (read : String × String → Except Fault Step)
    {add : Membership → String → String → Except Fault Membership}
    (hadd : ∀ m e, add m e.1 e.2 = (read e).map m.apply)
    (h : addFile machine directory name add m = .ok m') :
    ∃ steps : List Step, m' = steps.foldl Membership.apply m ∧
      ∀ step, step ∈ steps ↔ ∃ e, Entered machine directory name e ∧ read e = .ok step := by
  obtain ⟨file, hfile, h⟩ := bind_eq_ok_iff.1 h
  obtain ⟨steps, hm, hsteps⟩ := foldlM_add hadd h
  refine ⟨steps, hm, fun step => ?_⟩
  rw [hsteps]
  refine exists_congr fun e => and_congr_left fun _ => ?_
  rw [Entered, hfile]
  cases file with
  | none => simp [Dictionary.empty]
  | some d =>
    rw [Option.getD_some, Dictionary.mem_entries_iff]
    simp

/-- The step for which an entry of the file of identities stands. -/
def identityStep (e : String × String) : Except Fault Step :=
  ((readIdentity e.2).mapError (.identity e.1)).map fun i => .identity e.1 i.1 i.2

theorem identityStep_eq_ok_iff {e : String × String} {step : Step} :
    identityStep e = .ok step ↔ ∃ name version, readIdentity e.2 = .ok (name, version) ∧
      .identity e.1 name version = step := by
  rw [identityStep, map_eq_ok_iff]
  cases readIdentity e.2 with
  | error fault => simp [Except.mapError]
  | ok i =>
    obtain ⟨name, version⟩ := i
    simp [Except.mapError, and_assoc]

theorem addIdentity_eq_map (m : Membership) (e : String × String) :
    addIdentity m e.1 e.2 = (identityStep e).map m.apply := by
  unfold addIdentity identityStep
  cases readIdentity e.2 with
  | error fault => rfl
  | ok i => rfl

/-- **Files are read as steps**, one for each of their entries. -/
theorem exists_steps_of_load (h : load machine directory s = .ok m) :
    ∃ steps : List Step, m = .ofSteps steps ∧
      ∀ step, step ∈ steps ↔ Written machine directory s step := by
  obtain ⟨m₁, h₁, h⟩ := bind_eq_ok_iff.1 h
  obtain ⟨m₂, h₂, h⟩ := bind_eq_ok_iff.1 h
  obtain ⟨m₃, h₃, h₄⟩ := bind_eq_ok_iff.1 h
  obtain ⟨identities, rfl, hidentities⟩ := addFile_ok _ addIdentity_eq_map h₁
  obtain ⟨bundles, rfl, hbundles⟩ :=
    addFile_ok (fun e => .ok (.bundle e.1 (Properties.items e.2))) (fun _ _ => rfl) h₂
  obtain ⟨features, rfl, hfeatures⟩ :=
    addFile_ok (fun e => .ok (.feature e.1 (Properties.items e.2))) (fun _ _ => rfl) h₃
  obtain ⟨regions, rfl, hregions⟩ :=
    addFile_ok (fun e => .ok (.region e.1 (Properties.items e.2))) (fun _ _ => rfl) h₄
  refine ⟨identities ++ bundles ++ features ++ regions, ?_, fun step => ?_⟩
  · simp only [Membership.ofSteps, List.foldl_append]
  · simp only [List.mem_append, hidentities, hbundles, hfeatures, hregions,
      identityStep_eq_ok_iff, Except.ok.injEq]
    constructor
    · rintro (((⟨e, he, name, version, hread, rfl⟩ | ⟨e, he, rfl⟩) | ⟨e, he, rfl⟩) | ⟨e, he, rfl⟩)
      · exact .identity he hread
      · exact .bundle he
      · exact .feature he
      · exact .region he
    · intro hwritten
      cases hwritten with
      | identity he hread => exact .inl (.inl (.inl ⟨_, he, _, _, hread, rfl⟩))
      | bundle he => exact .inl (.inl (.inr ⟨_, he, rfl⟩))
      | feature he => exact .inl (.inr ⟨_, he, rfl⟩)
      | region he => exact .inr ⟨_, he, rfl⟩

end Region

/-! ## What a region filter keeps -/

namespace RegionFilter

open StartOrder.Membership (Step facts)

variable {r : Requirement}

theorem visible_ofSteps (steps : List Step) (policy : Policy) (g : Graph) (c : Capability) :
    (⟨.ofSteps steps, policy⟩ : RegionFilter).sees g r c = true ↔
      Visible (facts {step | step ∈ steps}) policy g r c := by
  rw [sees_iff_visible]
  simp only [Membership.records_ofSteps, Set.ofPred_mem_eq]

open Classical in
/-- **Of the providers of a package a region filter keeps those that may be seen**, in their
order. It goes by the facts that have been recorded, by steps or by the entries of files, and is
the same for all steps that state these facts, whatever their order and grouping. -/
theorem keep_eq_filter (hns : r.ns = Vocabulary.package) (policy : Policy) (g : Graph)
    (cs : List Capability) :
    (∀ steps : List Step, (⟨.ofSteps steps, policy⟩ : RegionFilter).keep g r cs =
        cs.filter fun c => Visible (facts {step | step ∈ steps}) policy g r c) ∧
      (∀ machine directory s m, Region.load machine directory s = .ok m →
        (⟨m, policy⟩ : RegionFilter).keep g r cs = cs.filter fun c =>
          Visible (facts {step | Region.Written machine directory s step}) policy g r c) ∧
      ∀ steps steps' : List Step, facts {step | step ∈ steps} = facts {step | step ∈ steps'} →
        (⟨.ofSteps steps, policy⟩ : RegionFilter).keep g r cs =
          (⟨.ofSteps steps', policy⟩ : RegionFilter).keep g r cs := by
  have hbuilt (steps : List Step) : (⟨.ofSteps steps, policy⟩ : RegionFilter).keep g r cs =
      cs.filter fun c => Visible (facts {step | step ∈ steps}) policy g r c := by
    rw [keep, if_pos hns]
    refine List.filter_congr fun c _ => ?_
    rw [Bool.eq_iff_iff, visible_ofSteps, decide_eq_true_iff]
  refine ⟨hbuilt, ?_, ?_⟩
  · intro machine directory s m hload
    obtain ⟨steps, rfl, hsteps⟩ := Region.exists_steps_of_load hload
    rw [hbuilt]
    simp only [hsteps]
  · intro steps steps' hfacts
    rw [hbuilt, hbuilt, hfacts]

/-- A library whose feature is in no region, and a client whose feature is in a region with one of
the packages of the library. -/
def remoteFiles : Machine :=
  .ofTree <| .directory [("regions", .directory
    [("idbsnver.properties", .file (.text "a=client~1\nb=library~1.0\nc=library~1.0.0\n")),
      ("bundles.properties", .file (.text "a=own\nc=lonely\n")),
      ("features.properties", .file (.text "own=here\nlonely=\n")),
      ("regions.properties", .file (.text "here=other, util\n"))])]

/-- The library offers two packages, and the client requires any. -/
def remote : Graph :=
  .ofList
    [{ identity := { symbolicName := "client", version := { major := 1 } }
       requirements := [{ ns := Vocabulary.package }] },
     { identity := { symbolicName := "library", version := { major := 1 } }
       capabilities :=
        ["secret", "util"].map fun package =>
          { ns := Vocabulary.package
            attributes := .ofList [(Vocabulary.package, .text package)] } }]

/-- The requirement of the client. -/
def anyPackage : Requirement := { ns := Vocabulary.package, owner := some 0 }

/-- The packages of the library. -/
def offered : List Capability := remote.capabilitiesIn Vocabulary.package

/-- The client only sees the package that is in its region. The policy does not open the library,
since of its feature it has been recorded that it is in no region. -/
theorem keep_eq_filter_remote : ∃ m, Region.load remoteFiles "regions" {} = .ok m ∧
    ((⟨m, .failOpen⟩ : RegionFilter).keep remote anyPackage offered).map
      (·.text? Vocabulary.package) = [some "util"] ∧
    ∀ c ∈ offered, Visible (facts {step | Region.Written remoteFiles "regions" {} step}) .failOpen
      remote anyPackage c ↔ c.text? Vocabulary.package = some "util" := by
  obtain ⟨m, hload, hkeep⟩ := exists_eq_ok_of_map (show
    (Region.load remoteFiles "regions" {}).toOption.map (fun m => decide
      (((⟨m, .failOpen⟩ : RegionFilter).keep remote anyPackage offered).map
          (·.text? Vocabulary.package) = [some "util"] ∧
        ∀ c ∈ offered, c ∈ (⟨m, .failOpen⟩ : RegionFilter).keep remote anyPackage offered ↔
          c.text? Vocabulary.package = some "util")) = some true by decide +kernel)
  obtain ⟨hkept, hiff⟩ := of_decide_eq_true hkeep
  refine ⟨m, hload, hkept, fun c hc => ?_⟩
  rw [← hiff c hc, (keep_eq_filter rfl _ _ _).2.1 _ _ _ _ hload]
  simp only [List.mem_filter, hc, true_and, decide_eq_true_eq]

end RegionFilter

end StartOrder
