import StartOrder.Proofs.Region.Transfer

/-!
# What can be resolved stays so

More modules, fewer region filters and weaker policies only add candidates. A search may then try
others first, run into new cycles and remember new failures, but it never fails where it succeeded
before: the core of the one pool is part of the core of the other.

The owner of a capability need not be a module of the graph, and a module that is put in later may
come to lie at its place and be hidden there. Such a capability never met a requirement, because
its owner could not be resolved.

## Main results

* `simulates_insertAll`: every module finds the providers that it has found before
* `exists_resolve_mono`: what can be resolved stays so
-/

namespace StartOrder.Wiring

variable {g : Graph} {hosted : List Capability} {filters filters' : List RegionFilter}
  {ids : List ModuleId} {res : Resolution}

/-- A relaxed region filter sees what the other one sees of a module, when modules are put in. -/
theorem follows_insertAll {f f' : RegionFilter} (h : f'.Relaxes f) (ms : List Module)
    (r : Requirement) {c : Capability} {p : ModuleId} {n : Module} (howner : c.owner = some p)
    (hn : g.get? p = some n) : Hook.Follows g (g.insertAll ms) r r c c f'.hook f.hook := by
  have hlookup {o : Option ModuleId} {m : Module} (hm : o.bind g.get? = some m) :
      o.bind (g.insertAll ms).get? = some m := by
    obtain ⟨i, rfl, hi⟩ := Option.bind_eq_some_iff.1 hm
    exact Graph.get?_insertAll hi
  have hprovider : c.owner.bind g.get? = some n := by rw [howner, Option.bind_some, hn]
  refine RegionFilter.follows_of_sees rfl fun hsees => ?_
  rw [RegionFilter.sees_iff_visible] at hsees ⊢
  rw [h.membership]
  exact hsees.transfer h.failOpen hprovider (hlookup hprovider) rfl rfl
    (fun R hR => ⟨R, hlookup hR, rfl⟩) rfl

/-- **Every module finds the providers that it has found before** when modules are put in, region
filters are taken away and policies are relaxed. -/
theorem simulates_insertAll (ms : List Module)
    (hfilters : List.SublistForall₂ RegionFilter.Relaxes filters' filters) :
    Pool.Simulates ⟨g, hosted, filters.map RegionFilter.hook⟩
      ⟨g.insertAll ms, hosted, filters'.map RegionFilter.hook⟩ Eq := by
  rintro i _ m rfl hm
  refine ⟨m, Graph.get?_insertAll hm, fun r hr => ⟨r, hr, rfl, fun cs hcs c hc p hp howner => ?_⟩⟩
  have hoffers : Pool.Offers ⟨g.insertAll ms, hosted, filters'.map RegionFilter.hook⟩ c := by
    rcases Pool.offers_of_mem_providers hcs hc with hadded | ⟨id, n, hn, hdeclared⟩
    · exact .inl hadded
    · exact .inr ⟨id, n, Graph.get?_insertAll hn, hdeclared⟩
  obtain ⟨n, hn, -⟩ := Pool.supports_core hp
  have hfollows : List.SublistForall₂ (Hook.Follows g (g.insertAll ms) r r c c)
      (filters'.map RegionFilter.hook) (filters.map RegionFilter.hook) := by
    obtain ⟨kept, hrelaxes, hsub⟩ := List.sublistForall₂_iff.1 hfilters
    rw [List.sublistForall₂_map_left_iff, List.sublistForall₂_map_right_iff]
    refine List.sublistForall₂_iff.2 ⟨kept, hrelaxes.imp fun _ _ h => ?_, hsub⟩
    exact follows_insertAll h ms r howner hn
  obtain ⟨cs', hcs', hc'⟩ := Pool.exists_mem_providers hcs hc rfl rfl hoffers hfollows
  exact ⟨cs', hcs', c, hc', p, rfl, howner⟩

/-- **What can be resolved stays so** when further modules are put in, region filters are taken
away, and policies are switched from closed to open, as long as all filters are well formed. -/
theorem exists_resolve_mono (ms : List Module)
    (hfilters : List.SublistForall₂ RegionFilter.Relaxes filters' filters)
    (hp : (g.insertAll ms).FiltersParse)
    (h : resolve ⟨g, hosted, filters.map RegionFilter.hook⟩ ids = .ok res) :
    ∃ res', resolve ⟨g.insertAll ms, hosted, filters'.map RegionFilter.hook⟩ ids = .ok res' := by
  refine exists_resolve_of_mem_core hp fun id hid => ?_
  exact (simulates_insertAll ms hfilters).mem_core (mem_core_of_resolve h id hid) rfl

/-- A client and a library of one feature. Other modules are hidden from the client. -/
def guarded : RegionFilter where
  membership :=
    { identities := [("a", "client", .zero), ("b", "library", .zero)]
      features := .ofList [("a", Names.ofList ["own"]), ("b", Names.ofList ["own"])] }
  policy := .failClosed

/-- Two modules offer a package. The first of them needs a task and belongs to no feature. -/
def guardedModules : List Module :=
  [{ identity := { symbolicName := "stranger", version := .zero }
     capabilities := [{ ns := Vocabulary.package }], requirements := [{ ns := "task" }] },
   { identity := { symbolicName := "library", version := .zero }
     capabilities := [{ ns := Vocabulary.package }] },
   { identity := { symbolicName := "client", version := .zero }
     requirements := [{ ns := Vocabulary.package }] }]

def worker : Module where
  identity := { symbolicName := "worker", version := .zero }
  capabilities := [{ ns := "task" }]

/-- The client was wired to the library. It is still resolved when the stranger, which the worker
now supports, can be seen and is tried first. -/
theorem exists_resolve_mono_guarded : ∃ res res',
    resolve ⟨.ofList guardedModules, [], [guarded, guarded].map RegionFilter.hook⟩ [2] = .ok res ∧
      res.map Prod.fst = [1, 2] ∧
      resolve ⟨(Graph.ofList guardedModules).insertAll [worker], [],
        [{ guarded with policy := .failOpen }].map RegionFilter.hook⟩ [2] = .ok res' ∧
      res'.map Prod.fst = [3, 0, 2] := by
  obtain ⟨res, h, hres⟩ := exists_eq_ok_of_map (show
    (resolve ⟨.ofList guardedModules, [], [guarded, guarded].map RegionFilter.hook⟩
      [2]).toOption.map (·.map Prod.fst) = some [1, 2] by decide +kernel)
  have hfilters : List.SublistForall₂ RegionFilter.Relaxes
      [{ guarded with policy := .failOpen }] [guarded, guarded] :=
    .cons_right (.cons (.inr rfl) .nil)
  obtain ⟨res', h'⟩ := exists_resolve_mono [worker] hfilters (by decide +kernel) h
  have hres' : (resolve ⟨(Graph.ofList guardedModules).insertAll [worker], [],
      [{ guarded with policy := .failOpen }].map RegionFilter.hook⟩ [2]).toOption.map
        (·.map Prod.fst) = some [3, 0, 2] := by decide +kernel
  rw [h'] at hres'
  exact ⟨res, res', h, hres, h', Option.some.inj hres'⟩

end StartOrder.Wiring
