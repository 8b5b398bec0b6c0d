import StartOrder.Proofs.Graph
import StartOrder.Proofs.Region.Visibility
import StartOrder.Proofs.Wiring.Resolution

/-!
# Regions are kept apart

A region filter is asked about the providers of one requirement at a time, before any of them is
tried. Since nothing is wired to a module that is not among these providers, each wire for a
package is one that every region filter permits, whatever else has been tried, given up or is in
progress, and wherever the filter stands among other hooks.

## Main results

* `Wiring.Pool.exists_mem_keep_of_mem_visible`: every hook has been asked about a provider
* `Wiring.permitted_of_resolve`: every wire for a package is permitted
-/

namespace StartOrder.Wiring

variable {pool : Pool} {r : Requirement} {c : Capability} {cs : List Capability} {k : Hook}
  {f : RegionFilter} {ids : List ModuleId} {res : Resolution} {e : Entry} {w : Wire}

/-! ## Providers -/

namespace Pool

/-- What the hooks of a pool keep each one of them has kept. -/
theorem exists_mem_keep_of_mem_visible (hk : k ∈ pool.filters) (hc : c ∈ pool.visible r cs) :
    ∃ cs', c ∈ k.keep pool.graph r cs' := by
  obtain ⟨pre, post, hsplit⟩ := List.append_of_mem hk
  rw [visible, hsplit, List.foldl_append, List.foldl_cons] at hc
  have hsub := visible_sublist { pool with filters := post } r
    (k.keep pool.graph r (pre.foldl (fun cs k => k.keep pool.graph r cs) cs))
  exact ⟨_, hsub.subset hc⟩

/-- What is provided has passed the hooks. -/
theorem exists_mem_visible_of_mem_providers (h : pool.providers r = .ok cs) (hc : c ∈ cs) :
    ∃ cs', c ∈ pool.visible r cs' := by
  unfold providers at h
  split at h
  · obtain rfl := Except.ok.inj h
    exact ⟨[], hc⟩
  · obtain ⟨test, -, rfl⟩ := map_eq_ok_iff.1 h
    exact ⟨_, hc⟩

/-- A region filter sees every provider of a package. -/
theorem sees_of_mem_providers (hf : f.hook ∈ pool.filters) (hns : r.ns = Vocabulary.package)
    (h : pool.providers r = .ok cs) (hc : c ∈ cs) : f.sees pool.graph r c = true := by
  obtain ⟨cs', hvisible⟩ := exists_mem_visible_of_mem_providers h hc
  obtain ⟨cs'', hkeep⟩ := exists_mem_keep_of_mem_visible hf hvisible
  change c ∈ f.keep pool.graph r cs'' at hkeep
  rw [RegionFilter.keep, if_pos hns] at hkeep
  exact (List.mem_filter.1 hkeep).2

end Pool

/-! ## Wires -/

/-- A wire of a resolution starts at a module that has the requirement. -/
theorem exists_requirer (h : resolve pool ids = .ok res) (he : e ∈ res) (hw : w ∈ e.2) :
    ∃ n, pool.graph.get? w.requirer = some n ∧ w.requirement ∈ n.requirements := by
  obtain ⟨n, hn, hwired⟩ := wired_core h he
  obtain ⟨hsub, -⟩ := hwired.follows rfl
  refine ⟨n, ?_, ?_⟩
  · rw [(hwired.wire_of_mem hw).1, hn]
  · exact (List.mem_filter.1 (hsub.subset (List.mem_map_of_mem hw))).1

/-- A wire of a resolution leads to a module. -/
theorem exists_provider (h : resolve pool ids = .ok res) (he : e ∈ res) (hw : w ∈ e.2) :
    ∃ n, pool.graph.get? w.provider = some n := by
  obtain ⟨n, hn, -⟩ := members_supports h (provider_mem_members h he hw)
  exact ⟨n, hn⟩

/-- **Every wire for a package is permitted by every region filter**, whatever other hooks and
added capabilities there are. -/
theorem permitted_of_resolve {ms : List Module} {hosted : List Capability} {filters : List Hook}
    (h : resolve ⟨.ofList ms, hosted, filters⟩ ids = .ok res) (hf : f.hook ∈ filters)
    (he : e ∈ res) (hw : w ∈ e.2) (hns : w.requirement.ns = Vocabulary.package) :
    ∃ R P, (Graph.ofList ms).get? w.requirer = some R ∧ w.requirement ∈ R.requirements ∧
      (Graph.ofList ms).get? w.provider = some P ∧ w.capability.owner = some w.provider ∧
      f.Permitted R P w.capability := by
  obtain ⟨R, hR, hr⟩ := exists_requirer h he hw
  obtain ⟨P, hP⟩ := exists_provider h he hw
  obtain ⟨_, -, hwired⟩ := wired_core h he
  obtain ⟨-, howner, cs, hcs, hc⟩ := hwired.wire_of_mem hw
  refine ⟨R, P, hR, hr, hP, howner, ?_⟩
  have hsees := Pool.sees_of_mem_providers hf hns hcs hc
  have hrequirer : w.requirement.owner = some w.requirer :=
    (Graph.holdsOf_ofList ms).requirer hR hr
  refine (RegionFilter.sees_iff_permitted ?_ ?_).1 hsees
  · rw [hrequirer, Option.bind_some, hR]
  · rw [howner, Option.bind_some, hP]

/-- A client and a library of one feature, and a library of another one. -/
def parted : RegionFilter where
  membership :=
    { identities := [("a", "client", .zero), ("b", "library", .zero), ("c", "stranger", .zero)]
      features := .ofList
        [("a", Names.ofList ["own"]), ("b", Names.ofList ["own"]), ("c", Names.ofList ["other"])]
      regions := .ofList [("other", Names.ofList [])] }

/-- Two modules offer a package, and the first of them belongs to another feature. -/
def partedModules : List Module :=
  [{ identity := { symbolicName := "stranger", version := .zero }
     capabilities := [{ ns := Vocabulary.package }] },
   { identity := { symbolicName := "library", version := .zero }
     capabilities := [{ ns := Vocabulary.package }] },
   { identity := { symbolicName := "client", version := .zero }
     requirements := [{ ns := Vocabulary.package }] }]

/-- The client is wired to the library of its own feature. -/
theorem permitted_of_resolve_parted : ∃ res,
    resolve ⟨.ofList partedModules, [], [parted.hook]⟩ [2] = .ok res ∧
      ∃ e ∈ res, ∃ w ∈ e.2, w.requirer = 2 ∧ w.provider = 1 ∧ ∃ R P,
        (Graph.ofList partedModules).get? 2 = some R ∧
          (Graph.ofList partedModules).get? 1 = some P ∧ parted.Permitted R P w.capability := by
  obtain ⟨res, h, hres⟩ := exists_eq_ok_of_map (show
    (resolve ⟨.ofList partedModules, [], [parted.hook]⟩ [2]).toOption.map (fun res => decide
      (∃ e ∈ res, ∃ w ∈ e.2, w.requirer = 2 ∧ w.provider = 1 ∧
        w.requirement.ns = Vocabulary.package)) = some true by decide +kernel)
  obtain ⟨e, he, w, hw, hrequirer, hprovider, hns⟩ := of_decide_eq_true hres
  obtain ⟨R, P, hR, -, hP, -, hpermitted⟩ :=
    permitted_of_resolve h List.mem_cons_self he hw hns
  rw [hrequirer] at hR
  rw [hprovider] at hP
  exact ⟨res, h, e, he, w, hw, hrequirer, hprovider, R, P, hR, hP, hpermitted⟩

end StartOrder.Wiring
