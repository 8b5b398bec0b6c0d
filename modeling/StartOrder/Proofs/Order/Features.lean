import StartOrder.Configuration
import StartOrder.Proofs.Order.Report

/-!
# The features of a start order

Modules with the same contracts are one module of the graph, which keeps the handle that was given
first. All the same no feature is lost: the modules of a feature are stamped with its coordinates,
so that modules which collapse belong to features that count as the same one, and the stand-ins
belong to none. Every feature that has a module is therefore reported, once.

## Main results

* `Orderer.mem_featureEntries`: which modules are put in order
* `Orderer.reports_features`: the features that are reported
-/

namespace StartOrder.Orderer

variable {o : Orderer} {describe : Artifact → Except Error Descriptor} {features fs : List Feature}
  {entries : List (Module × Feature)} {e : Module × Feature} {f : Feature}

/-- The modules that are put in order are those of all artifacts of features, with the coordinates
of their features. -/
theorem mem_featureEntries (h : featureEntries describe features = .ok entries) :
    e ∈ entries ↔ ∃ f ∈ features, ∃ a ∈ f.bundles, ∃ d, describe a = .ok d ∧
      ∃ m, d.manifest.toModule = .ok m ∧ e = (m.withFeature f.id, f) := by
  obtain ⟨found, hfound, h⟩ := bind_eq_ok_iff.1 h
  obtain rfl := Except.ok.inj h
  rw [List.mem_flatten]
  constructor
  · rintro ⟨es, hes, he⟩
    obtain ⟨f, hf, hbundles⟩ := (mem_iff_of_mapM_eq_ok hfound).1 hes
    obtain ⟨a, ha, hstep⟩ := (mem_iff_of_mapM_eq_ok hbundles).1 he
    obtain ⟨d, hd, hstep⟩ := bind_eq_ok_iff.1 hstep
    obtain ⟨m, hm, hstep⟩ := bind_eq_ok_iff.1 hstep
    exact ⟨f, hf, a, ha, d, hd, m, hm, (Except.ok.inj hstep).symm⟩
  · rintro ⟨f, hf, a, ha, d, hd, m, hm, rfl⟩
    obtain ⟨es, hes⟩ := exists_mapM_eq_ok_iff.1 ⟨_, hfound⟩ f hf
    refine ⟨es, (mem_iff_of_mapM_eq_ok hfound).2 ⟨f, hf, hes⟩, ?_⟩
    refine (mem_iff_of_mapM_eq_ok hes).2 ⟨a, ha, ?_⟩
    exact bind_eq_ok_iff.2 ⟨d, hd, bind_eq_ok_iff.2 ⟨m, hm, rfl⟩⟩

/-- Every artifact of a feature gives one of the modules. -/
theorem exists_featureEntry (h : featureEntries describe features = .ok entries)
    (hf : f ∈ features) (hne : f.bundles ≠ []) : ∃ m, (m, f) ∈ entries := by
  obtain ⟨found, hfound, -⟩ := bind_eq_ok_iff.1 h
  obtain ⟨a, ha⟩ := List.exists_mem_of_ne_nil _ hne
  obtain ⟨es, hes⟩ := exists_mapM_eq_ok_iff.1 ⟨_, hfound⟩ f hf
  obtain ⟨_, hstep⟩ := exists_mapM_eq_ok_iff.1 ⟨_, hes⟩ a ha
  obtain ⟨d, hd, hstep⟩ := bind_eq_ok_iff.1 hstep
  obtain ⟨m, hm, -⟩ := bind_eq_ok_iff.1 hstep
  exact ⟨m.withFeature f.id, (mem_featureEntries h).2 ⟨f, hf, a, ha, d, hd, m, hm, rfl⟩⟩

/-- A module belongs to the feature with which it comes. -/
theorem feature_of_mem_featureEntries (h : featureEntries describe features = .ok entries)
    (he : e ∈ entries) : e.2 ∈ features ∧ e.2.bundles ≠ [] ∧ e.1.feature = some e.2.id := by
  obtain ⟨f, hf, a, ha, -, -, m, -, rfl⟩ := (mem_featureEntries h).1 he
  exact ⟨hf, List.ne_nil_of_mem ha, rfl⟩

/-- The handle of a module of a feature is a feature with the same coordinates. -/
theorem id_of_firstHandle (h : featureEntries describe features = .ok entries) (he : e ∈ entries)
    (hf : firstHandle entries e.1 = some f) : f.id = e.2.id := by
  obtain ⟨e', he', hsame, rfl⟩ := mem_of_firstHandle hf
  have hstamp := congrArg Module.feature hsame
  change e'.1.feature = e.1.feature at hstamp
  rw [(feature_of_mem_featureEntries h he').2.2, (feature_of_mem_featureEntries h he).2.2] at hstamp
  exact Option.some.inj hstamp

/-- **Every deployed feature is reported exactly once**, and nothing else is reported. -/
theorem reports_features (h : o.orderFeaturesBy describe features = .ok fs) :
    (fs.map Feature.id).Nodup ∧ (∀ f ∈ fs, f ∈ features ∧ f.bundles ≠ []) ∧
      ∀ f ∈ features, f.bundles ≠ [] → ∃ f' ∈ fs, f'.id = f.id := by
  obtain ⟨entries, hentries, h⟩ := bind_eq_ok_iff.1 h
  obtain ⟨launchApi, -, h⟩ := bind_eq_ok_iff.1 h
  have horder : { o with launchApi }.order entries = .ok fs := h
  rcases exists_report_of_order horder with ⟨rfl, rfl⟩ | ⟨ids, -, hperm, rfl⟩
  · refine ⟨.nil, List.forall_mem_nil _, fun f hf hne => ?_⟩
    obtain ⟨m, hm⟩ := exists_featureEntry hentries hf hne
    cases hm
  · have hreports := reports_report hperm
    refine ⟨?_, ?_, ?_⟩
    · rw [List.Nodup, List.pairwise_map]
      refine hreports.apart.imp ?_
      -- Features with the same coordinates count as equal.
      intro f f' hapart heq
      have hfalse := hapart.1
      rw [Feature.beq_iff.2 heq] at hfalse
      cases hfalse
    · intro f hf
      obtain ⟨e, -, hfirst⟩ := hreports.given f hf
      obtain ⟨e', he', -, rfl⟩ := mem_of_firstHandle hfirst
      have hfeature := feature_of_mem_featureEntries hentries he'
      exact ⟨hfeature.1, hfeature.2.1⟩
    · intro f hf hne
      obtain ⟨m, hm⟩ := exists_featureEntry hentries hf hne
      obtain ⟨f', hfirst, f'', hf'', heq⟩ := hreports.complete _ hm
      have hid : f'.id = f.id := id_of_firstHandle hentries hm hfirst
      refine ⟨f'', hf'', ?_⟩
      rcases heq with rfl | heq
      · exact hid
      · exact (Feature.beq_iff.1 heq).trans hid

/-- A feature with the given artifacts. -/
def deployed (name : String) (bundles : List String) : Feature where
  id := { group := "example", artifact := name, version := "1" }
  bundles := bundles.map fun artifact => { group := "example", artifact, version := "1" }

/-- All artifacts have the same manifest, that of the launch interface included. -/
def describeAlike (a : Artifact) : Except Error Descriptor :=
  .ok { artifact := a, location := "alike.toml", manifest :=
    { symbolicName := "alike", version := "1", exports := [{ name := "api" }] } }

/-- Both features with artifacts are reported, and the one without any is not. -/
theorem reports_features_alike :
    ∃ fs, contractless.orderFeaturesBy describeAlike
        [deployed "first" ["a"], deployed "empty" [], deployed "second" ["b", "a"]] = .ok fs ∧
      (fs.map Feature.id).Nodup ∧ (∃ f ∈ fs, f.id.artifact = "first") ∧
      (∃ f ∈ fs, f.id.artifact = "second") ∧ ∀ f ∈ fs, f.id.artifact ≠ "empty" := by
  obtain ⟨fs, h⟩ := exists_eq_ok_of_isOk (x := contractless.orderFeaturesBy describeAlike
    [deployed "first" ["a"], deployed "empty" [], deployed "second" ["b", "a"]])
    (by decide +kernel)
  obtain ⟨hnodup, hgiven, hcomplete⟩ := reports_features h
  obtain ⟨f, hf, hfirst⟩ := hcomplete _ List.mem_cons_self (by decide)
  obtain ⟨f', hf', hsecond⟩ :=
    hcomplete (deployed "second" ["b", "a"]) (by simp) (by decide)
  refine ⟨fs, h, hnodup, ⟨f, hf, congrArg Artifact.artifact hfirst⟩,
    ⟨f', hf', congrArg Artifact.artifact hsecond⟩, ?_⟩
  intro f hf hempty
  obtain ⟨hmem, hne⟩ := hgiven f hf
  simp only [List.mem_cons, List.not_mem_nil, or_false] at hmem
  rcases hmem with rfl | rfl | rfl
  · exact absurd hempty (by decide)
  · exact hne rfl
  · exact absurd hempty (by decide)

end StartOrder.Orderer
