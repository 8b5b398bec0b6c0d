import StartOrder.Region.Visibility

/-!
# What a module may see

A region filter is asked for one provider at a time. Its answer depends on the features and the
regions that the membership records for the identities of two modules, and on nothing else that
has been recorded. What it lets through falls under one of five cases.

## Main definitions

* `Membership.Holds`: a feature holds an artifact with an identity
* `Membership.Lists`: a package is seen by everybody, or in a region of a feature of an identity
* `RegionFilter.Permitted`: the cases in which a module may see a provider

## Main results

* `Membership.contains_featuresOf`: the features of an identity
* `RegionFilter.sees_iff_permitted`: a region filter lets through what is permitted
-/

namespace StartOrder

/-! ## Sets of names -/

namespace Names

variable {s t : Names} {x : String}

theorem mem_toList : x ∈ s.toList ↔ s.contains x = true := by
  rw [Dictionary.contains, Option.isSome_iff_exists]
  constructor
  · intro h
    obtain ⟨⟨_, _⟩, he, rfl⟩ := List.mem_map.1 h
    exact ⟨(), Dictionary.mem_entries_iff.1 he⟩
  · rintro ⟨u, h⟩
    exact List.mem_map.2 ⟨_, Dictionary.mem_entries_iff.2 h, rfl⟩

theorem isEmpty_toList : s.toList.isEmpty = true ↔ ∀ x, ¬ s.contains x = true := by
  simp only [List.isEmpty_iff, List.eq_nil_iff_forall_not_mem, mem_toList]

@[simp] theorem contains_empty : (Dictionary.empty : Names).contains x = false := rfl

theorem contains_insert {y : String} :
    (Dictionary.insert s y ()).contains x = true ↔ s.contains x = true ∨ x = y := by
  rw [Dictionary.contains, Dictionary.get?_insert]
  by_cases h : x = y <;> simp [h, Dictionary.contains]

theorem contains_foldl_insert {xs : List String} :
    Dictionary.contains (xs.foldl (fun d n => d.insert n ()) s) x = true ↔
      s.contains x = true ∨ x ∈ xs := by
  induction xs generalizing s with
  | nil => simp
  | cons y xs ih => rw [List.foldl_cons, ih, contains_insert, or_assoc, List.mem_cons]

theorem contains_union : (s.union t).contains x = true ↔
    s.contains x = true ∨ t.contains x = true := by
  rw [union, contains_foldl_insert, mem_toList]

theorem meets_iff : s.meets t = true ↔ ∃ x, s.contains x = true ∧ t.contains x = true := by
  simp only [meets, List.any_eq_true, mem_toList]

end Names

/-! ## Membership -/

namespace Membership

variable {m : Membership} {i : Identity} {x region package : String}

/-- A feature holds an artifact that carries the symbolic name and the version of an identity. -/
def Holds (m : Membership) (i : Identity) (x : String) : Prop :=
  ∃ artifact features, (artifact, i.symbolicName, i.version) ∈ m.identities ∧
    m.features.get? artifact = some features ∧ features.contains x = true

/-- A region is the one that everybody sees, or it is recorded for a feature of an identity. -/
def Reaches (m : Membership) (i : Identity) (region : String) : Prop :=
  region = Vocabulary.globalRegion ∨
    ∃ x regions, m.Holds i x ∧ m.regions.get? x = some regions ∧ regions.contains region = true

/-- A package is listed for a region that an identity reaches. -/
def Lists (m : Membership) (i : Identity) (package : String) : Prop :=
  ∃ region packages, m.Reaches i region ∧ m.packages.get? region = some packages ∧
    packages.contains package = true

theorem mem_aliases {artifact : String} :
    artifact ∈ m.aliases i ↔ (artifact, i.symbolicName, i.version) ∈ m.identities := by
  rw [aliases, List.mem_filterMap]
  constructor
  · rintro ⟨⟨artifact', name, version⟩, hmem, h⟩
    dsimp only at h
    split at h
    · next hsame =>
      obtain ⟨rfl, rfl⟩ := hsame
      obtain rfl := Option.some.inj h
      exact hmem
    · cases h
  · intro h
    exact ⟨_, h, by simp⟩

theorem contains_foldl_union {artifacts : List String} {s : Names} :
    Dictionary.contains (artifacts.foldl
      (fun (fs : Names) artifact => fs.union ((m.features.get? artifact).getD Dictionary.empty))
      s) x = true ↔
      s.contains x = true ∨ ∃ artifact ∈ artifacts, ∃ features,
        m.features.get? artifact = some features ∧ features.contains x = true := by
  induction artifacts generalizing s with
  | nil => simp
  | cons artifact artifacts ih =>
    rw [List.foldl_cons, ih, Names.contains_union, or_assoc]
    simp only [List.mem_cons, exists_eq_or_imp]
    cases m.features.get? artifact with
    | none => simp
    | some features => simp

/-- The features of an identity are those that hold one of its artifacts. -/
theorem contains_featuresOf : (m.featuresOf i).contains x = true ↔ m.Holds i x := by
  rw [featuresOf, contains_foldl_union]
  simp only [Names.contains_empty, Bool.false_eq_true, false_or, mem_aliases, Holds]
  constructor
  · rintro ⟨artifact, hmem, features, h⟩
    exact ⟨artifact, features, hmem, h⟩
  · rintro ⟨artifact, features, hmem, h⟩
    exact ⟨artifact, hmem, features, h⟩

theorem lists_iff : m.lists region package = true ↔
    ∃ packages, m.packages.get? region = some packages ∧ packages.contains package = true := by
  rw [lists, packagesOf?, Option.any_eq_true]

theorem isVisibleIn_iff {regions : List String} : m.isVisibleIn package regions = true ↔
    ∃ region, (region = Vocabulary.globalRegion ∨ region ∈ regions) ∧
      m.lists region package = true := by
  rw [isVisibleIn, Bool.or_eq_true, List.any_eq_true]
  constructor
  · rintro (h | ⟨region, hmem, h⟩)
    · exact ⟨_, .inl rfl, h⟩
    · exact ⟨region, .inr hmem, h⟩
  · rintro ⟨region, rfl | hmem, h⟩
    · exact .inl h
    · exact .inr ⟨region, hmem, h⟩

end Membership

/-! ## Region filters -/

namespace RegionFilter

variable {f : RegionFilter} {g : Graph} {r : Requirement} {c : Capability} {R P : Module}
  {features : Names} {region : String}

/-- The cases in which the module `R` may see a capability `c` of the module `P`. -/
inductive Permitted (f : RegionFilter) (R P : Module) (c : Capability) : Prop
  /-- Everybody sees the platform. -/
  | platform (h : P.kind = .framework)
  /-- A module sees itself and modules with the same identity. -/
  | own (h : P.identity = R.identity)
  /-- Modules of one feature see each other. -/
  | shared {x : String} (hP : f.membership.Holds P.identity x)
      (hR : f.membership.Holds R.identity x)
  /-- The package is seen by everybody, or in a region of a feature of `R`. -/
  | listed {package : String} (hc : c.text? Vocabulary.package = some package)
      (h : f.membership.Lists R.identity package)
  /-- The policy opens modules without features. -/
  | unassigned (hpolicy : f.policy = .failOpen) (h : ∀ x, ¬ f.membership.Holds P.identity x)
  /-- The policy opens modules with a feature for which no regions were recorded. -/
  | unplaced {x : String} (hpolicy : f.policy = .failOpen)
      (h : f.membership.Holds P.identity x) (hx : f.membership.regions.get? x = none)

theorem isFamiliar_iff (hR : r.owner.bind g.get? = some R) (hP : c.owner.bind g.get? = some P) :
    isFamiliar g r c = true ↔ P.kind = .framework ∨ P.identity = R.identity := by
  simp only [isFamiliar, hP, hR, Option.any_some, Bool.or_eq_true, beq_iff_eq]
  constructor
  · rintro ((h | h) | h)
    · exact .inl h
    · rw [h, hR, Option.some_inj] at hP
      exact .inr (hP ▸ rfl)
    · exact .inr h.symm
  · rintro (h | h)
    · exact .inl (.inl h)
    · exact .inr h.symm

theorem isUnclassified_iff : f.isUnclassified features = true ↔ f.policy = .failOpen ∧
    ((∀ x, ¬ features.contains x = true) ∨
      ∃ x, features.contains x = true ∧ f.membership.regions.get? x = none) := by
  simp only [isUnclassified, Bool.and_eq_true, Bool.or_eq_true, beq_iff_eq, Names.isEmpty_toList,
    List.any_eq_true, Names.mem_toList, Membership.regionsOf?, Option.isNone_iff_eq_none]

theorem mem_regionsOf : region ∈ f.regionsOf features ↔ ∃ x regions,
    features.contains x = true ∧ f.membership.regions.get? x = some regions ∧
      regions.contains region = true := by
  rw [regionsOf, List.mem_flatMap]
  simp only [Names.mem_toList, Membership.regionsOf?]
  constructor
  · rintro ⟨x, hx, h⟩
    cases hget : f.membership.regions.get? x with
    | none => simp [hget] at h
    | some regions => exact ⟨x, regions, hx, hget, Names.mem_toList.1 (by simpa [hget] using h)⟩
  · rintro ⟨x, regions, hx, hget, h⟩
    exact ⟨x, hx, by simpa [hget] using Names.mem_toList.2 h⟩

/-- The package of a capability is listed for a region of the requiring module. -/
theorem isListed_iff : f.isListed c (f.regionsOf (f.membership.featuresOf R.identity)) = true ↔
    ∃ package, c.text? Vocabulary.package = some package ∧
      f.membership.Lists R.identity package := by
  have hreach {region} : region = Vocabulary.globalRegion ∨
      region ∈ f.regionsOf (f.membership.featuresOf R.identity) ↔
        f.membership.Reaches R.identity region := by
    simp only [mem_regionsOf, Membership.contains_featuresOf, Membership.Reaches]
  simp only [isListed, Option.any_eq_true, Membership.isVisibleIn_iff, hreach,
    Membership.lists_iff, Membership.Lists, exists_and_left]

/-- **A region filter lets through exactly what is permitted.** -/
theorem sees_iff_permitted (hR : r.owner.bind g.get? = some R)
    (hP : c.owner.bind g.get? = some P) : f.sees g r c = true ↔ f.Permitted R P c := by
  simp only [sees, hR, hP, featuresAt, Option.map_some, Option.getD_some, Bool.or_eq_true,
    isFamiliar_iff hR hP, Names.meets_iff, isUnclassified_iff, isListed_iff,
    Membership.contains_featuresOf]
  constructor
  · rintro ((((h | h) | ⟨x, hx, hx'⟩) | ⟨hpolicy, h | ⟨x, hx, hnone⟩⟩) | ⟨package, hc, h⟩)
    · exact .platform h
    · exact .own h
    · exact .shared hx hx'
    · exact .unassigned hpolicy h
    · exact .unplaced hpolicy hx hnone
    · exact .listed hc h
  · rintro (h | h | ⟨hx, hx'⟩ | ⟨hc, h⟩ | ⟨hpolicy, h⟩ | ⟨hpolicy, hx, hnone⟩)
    · exact .inl (.inl (.inl (.inl h)))
    · exact .inl (.inl (.inl (.inr h)))
    · exact .inl (.inl (.inr ⟨_, hx, hx'⟩))
    · exact .inr ⟨_, hc, h⟩
    · exact .inl (.inr ⟨hpolicy, .inl h⟩)
    · exact .inl (.inr ⟨hpolicy, .inr ⟨_, hx, hnone⟩⟩)

end RegionFilter

end StartOrder
