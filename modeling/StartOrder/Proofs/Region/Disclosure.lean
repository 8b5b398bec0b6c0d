import StartOrder.Proofs.Region.Records

/-!
# What more records disclose

A step of recording only adds facts. A module that sees a provider because of facts sees it for the
same reason when there are more of them. Only a policy that opens what is not classified lets
providers through because something has not been recorded: that a module has a feature, or that a
feature is in a region. Such a policy may hide more when more is recorded, but not when packages
are recorded for a region, for that tells nothing of features.

## Main definitions

* `Membership.Fact.IsOffer`: a region lists a package

## Main results

* `RegionFilter.Visible.mono`: what stays visible by more facts
* `RegionFilter.keep_sublist_keep_ofSteps`: what is still kept after more steps
-/

namespace StartOrder

namespace Membership

variable {F F' : Set Fact} {i : Identity} {x : String} {fact : Fact} {steps : List Step}

/-- A fact of the kind that a region lists a package. -/
def Fact.IsOffer (fact : Fact) : Prop :=
  ∃ region package, fact = .offers region package

theorem facts_mono {S S' : Set Step} (h : S ⊆ S') : facts S ⊆ facts S' := by
  rintro fact ⟨step, hstep, hfact⟩
  exact ⟨step, h hstep, hfact⟩

theorem HasFeature.mono (hF : F ⊆ F') (h : HasFeature F i x) : HasFeature F' i x := by
  obtain ⟨artifact, hcarries, hbelongs⟩ := h
  exact ⟨artifact, hF hcarries, hF hbelongs⟩

/-- What regions list does not give a module a feature. -/
theorem HasFeature.of_offers (hnew : ∀ fact ∈ F', fact ∈ F ∨ fact.IsOffer)
    (h : HasFeature F' i x) : HasFeature F i x := by
  obtain ⟨artifact, hcarries, hbelongs⟩ := h
  refine ⟨artifact, (hnew _ hcarries).resolve_right ?_, (hnew _ hbelongs).resolve_right ?_⟩
  · rintro ⟨_, _, h⟩
    cases h
  · rintro ⟨_, _, h⟩
    cases h

/-- More packages of regions only add what the regions list. -/
theorem mem_facts_append_region {more : List (String × List String)}
    (h : fact ∈ facts {step | step ∈ steps ++ more.map fun e => .region e.1 e.2}) :
    fact ∈ facts {step | step ∈ steps} ∨ fact.IsOffer := by
  obtain ⟨step, hstep, hfact⟩ := h
  rcases List.mem_append.1 hstep with hstep | hstep
  · exact .inl ⟨step, hstep, hfact⟩
  · obtain ⟨⟨region, packages⟩, -, rfl⟩ := List.mem_map.1 hstep
    obtain ⟨package, -, rfl⟩ := List.mem_map.1 hfact
    exact .inr ⟨region, package, rfl⟩

end Membership

namespace RegionFilter

open StartOrder.Membership (Fact HasFeature Step facts)

variable {F F' : Set Fact} {policy : Policy} {g : Graph} {r : Requirement} {c : Capability}

/-- **More facts leave visible what has been visible** under a policy that opens nothing, and under
any policy when the new ones only say what regions list. -/
theorem Visible.mono (hF : F ⊆ F')
    (hnew : policy = .failOpen → ∀ fact ∈ F', fact ∈ F ∨ fact.IsOffer)
    (h : Visible F policy g r c) : Visible F' policy g r c := by
  cases h with
  | platform hP h => exact .platform hP h
  | own hP hR h => exact .own hP hR h
  | shared hP hR hPx hRx => exact .shared hP hR (hPx.mono hF) (hRx.mono hF)
  | everywhere hc h => exact .everywhere hc (hF h)
  | nearby hc hR hRx hx h => exact .nearby hc hR (hRx.mono hF) (hF hx) (hF h)
  | unknown hpolicy hP => exact .unknown hpolicy hP
  -- The policy opens a provider for what has not been recorded, and that is still so.
  | unassigned hpolicy hP h =>
    exact .unassigned hpolicy hP fun x hx => h x (hx.of_offers (hnew hpolicy))
  | unplaced hpolicy hP hPx hx =>
    refine .unplaced hpolicy hP (hPx.mono hF) fun hplaced => ?_
    rcases hnew hpolicy _ hplaced with hplaced | ⟨_, _, h⟩
    · exact hx hplaced
    · cases h

/-- A region filter that sees more keeps more, in the same order. -/
theorem keep_sublist_keep {f f' : RegionFilter}
    (h : ∀ c, f.sees g r c = true → f'.sees g r c = true) (cs : List Capability) :
    (f.keep g r cs).Sublist (f'.keep g r cs) := by
  unfold keep
  split
  · exact List.monotone_filter_right cs h
  · exact List.Sublist.refl cs

/-- **More records hide nothing** under a policy that opens nothing, whatever the steps. Under any
policy this holds of more packages that are recorded for regions. -/
theorem keep_sublist_keep_ofSteps (steps : List Step) (g : Graph) (r : Requirement)
    (cs : List Capability) :
    (∀ more : List Step,
      ((⟨.ofSteps steps, .failClosed⟩ : RegionFilter).keep g r cs).Sublist
        ((⟨.ofSteps (steps ++ more), .failClosed⟩ : RegionFilter).keep g r cs)) ∧
      ∀ (policy : Policy) (more : List (String × List String)),
        ((⟨.ofSteps steps, policy⟩ : RegionFilter).keep g r cs).Sublist
          ((⟨.ofSteps (steps ++ more.map fun e => .region e.1 e.2), policy⟩ :
            RegionFilter).keep g r cs) := by
  have hsubset (more : List Step) :
      facts {step | step ∈ steps} ⊆ facts {step | step ∈ steps ++ more} :=
    Membership.facts_mono fun _ hstep => List.mem_append_left more hstep
  refine ⟨fun more => ?_, fun policy more => ?_⟩
  · refine keep_sublist_keep (fun c hc => ?_) cs
    rw [visible_ofSteps] at hc ⊢
    exact hc.mono (hsubset more) fun hopen => by cases hopen
  · refine keep_sublist_keep (fun c hc => ?_) cs
    rw [visible_ofSteps] at hc ⊢
    exact hc.mono (hsubset _) fun _ _ => Membership.mem_facts_append_region

/-- The steps by which a library belongs to a feature that is in no region. -/
def remoteLibrary : List Step :=
  [.identity "artifact" "library" .zero, .bundle "artifact" ["remote"], .feature "remote" []]

/-- The one package of the library. -/
def libraryGraph : Graph :=
  .ofList [{ identity := { symbolicName := "library", version := .zero }
             capabilities := [{ ns := Vocabulary.package }] }]

/-- Under a policy that opens what is not classified each of these steps hides the package when it
comes last. -/
example : ∀ step ∈ remoteLibrary,
    let before : RegionFilter := ⟨.ofSteps (remoteLibrary.erase step), .failOpen⟩
    let after : RegionFilter := ⟨.ofSteps (remoteLibrary.erase step ++ [step]), .failOpen⟩
    let cs := libraryGraph.capabilitiesIn Vocabulary.package
    before.keep libraryGraph { ns := Vocabulary.package } cs = cs ∧
      after.keep libraryGraph { ns := Vocabulary.package } cs = [] ∧ cs ≠ [] := by
  decide +kernel

end RegionFilter

end StartOrder
