import StartOrder.Proofs.Graph
import StartOrder.Proofs.Wiring.Provision

/-!
# The same modules in another order

The place of a module says when it was put into the graph and nothing else. A contract can be
described without it, by the contract itself and the module to which it belongs. In two graphs with
the same modules the providers of a requirement have the same descriptions, only that they come in
another order, and so the same modules can be resolved.

This is so for hooks that ignore places as well. Such a hook may look at everything in the graph
and at all providers together, as long as it does not make a difference how the modules are numbered
or in which order the providers come. Every region filter is of this kind. Other hooks, like one
that only keeps the first provider, may let a module be resolved in the one graph and not in the
other.

## Main definitions

* `Capability.described`, `Requirement.described`: a contract and its module, without the place
* `Hook.IgnoresPlaces`: a hook that does not look at places
* `Pool.Rearranges`: two pools that only differ in the places of modules

## Main results

* `RegionFilter.ignoresPlaces_hook`: every region filter ignores places
* `Pool.Rearranges.perm_providers`: the providers are the same ones in another order
* `Pool.Rearranges.simulates`: what can be resolved in one pool can be resolved in the other
-/

namespace StartOrder

/-- A capability with the module to which it belongs, whatever the place of the module. -/
def Capability.described (g : Graph) (c : Capability) : Capability × Option Module :=
  (c.unowned, (c.owner.bind g.get?).map Module.unowned)

/-- A requirement with the module to which it belongs, whatever the place of the module. -/
def Requirement.described (g : Graph) (r : Requirement) : Requirement × Option Module :=
  (r.unowned, (r.owner.bind g.get?).map Module.unowned)

/-- A hook that looks neither at the places of modules nor at the order of providers. Where the
same modules lie at other places, it keeps the same providers. -/
def Hook.IgnoresPlaces (f : Hook) : Prop :=
  ∀ ⦃g g' : Graph⦄ ⦃r r' : Requirement⦄ ⦃cs cs' : List Capability⦄, g.Rearranges g' →
    r.described g = r'.described g' →
    (cs.map (·.described g)).Perm (cs'.map (·.described g')) →
      ((f.keep g r cs).map (·.described g)).Perm ((f.keep g' r' cs').map (·.described g'))

/-! ## Region filters -/

namespace RegionFilter

/-- Whether a module may see a capability of another one, by their descriptions. -/
def seesDescribed (f : RegionFilter) (R : Option Module) (x : Capability × Option Module) : Bool :=
  let own := f.featuresAt R
  let others := f.featuresAt x.2
  (x.2.any fun P => P.kind == .framework || R.any fun R => R.identity == P.identity) ||
    others.meets own || f.isUnclassified others || f.isListed x.1 (f.regionsOf own)

theorem featuresAt_unowned (f : RegionFilter) (m : Option Module) :
    f.featuresAt (m.map Module.unowned) = f.featuresAt m := by
  cases m <;> rfl

/-- A module at the place of the requiring one is that module, and has its identity. -/
theorem isFamiliar_eq (g : Graph) (r : Requirement) (c : Capability) :
    isFamiliar g r c = (c.owner.bind g.get?).any fun P =>
      P.kind == .framework || (r.owner.bind g.get?).any fun R => R.identity == P.identity := by
  unfold isFamiliar
  split
  · next hnone => rw [hnone, Option.any_none]
  · next P hP =>
    rw [hP, Option.any_some]
    by_cases howner : c.owner = r.owner
    · rw [← howner, hP]
      simp
    · rw [beq_false_of_ne howner, Bool.or_false]

theorem sees_eq_seesDescribed (f : RegionFilter) (g : Graph) (r : Requirement) (c : Capability) :
    f.sees g r c = f.seesDescribed (r.described g).2 (c.described g) := by
  simp only [sees, seesDescribed, isFamiliar_eq, Requirement.described, Capability.described,
    featuresAt_unowned, Option.any_map]
  rfl

/-- **Every region filter ignores places.** -/
theorem ignoresPlaces_hook (f : RegionFilter) : f.hook.IgnoresPlaces := by
  intro g g' r r' cs cs' _ hr h
  have hns : r.ns = r'.ns := congrArg (fun x => x.1.ns) hr
  have hkeep (g : Graph) (r : Requirement) (cs : List Capability)
      (hpackage : r.ns = Vocabulary.package) : (f.hook.keep g r cs).map (·.described g) =
        (cs.map (·.described g)).filter (f.seesDescribed (r.described g).2) := by
    change (f.keep g r cs).map _ = _
    rw [keep, if_pos hpackage, List.filter_map]
    exact congrArg _ (List.filter_congr fun c _ => sees_eq_seesDescribed f g r c)
  have hall (g : Graph) (r : Requirement) (cs : List Capability)
      (hpackage : r.ns ≠ Vocabulary.package) : f.hook.keep g r cs = cs := if_neg hpackage
  by_cases hpackage : r.ns = Vocabulary.package
  · rw [hkeep g r cs hpackage, hkeep g' r' cs' (hns ▸ hpackage), hr]
    exact h.filter _
  · rw [hall g r cs hpackage, hall g' r' cs' (hns ▸ hpackage)]
    exact h

end RegionFilter

/-- The capabilities of a graph are described by its modules. -/
theorem Graph.Owned.map_described_capabilitiesIn {g : Graph} (h : g.Owned) (ns : String) :
    (g.capabilitiesIn ns).map (·.described g) =
      (g.modules.map Module.unowned).flatMap fun u => (u.capabilitiesIn ns).map (·, some u) := by
  rw [capabilitiesIn, List.map_flatMap, List.flatMap_map]
  refine List.flatMap_congr fun n hn => ?_
  obtain ⟨i, hi⟩ := List.mem_iff_getElem?.1 hn
  have hin : n.unowned.capabilitiesIn ns = (n.capabilitiesIn ns).map Capability.unowned := by
    simp [Module.capabilitiesIn, Module.unowned, List.filter_map, Function.comp_def,
      Capability.unowned]
  rw [hin, List.map_map]
  refine List.map_congr_left fun c hc => ?_
  have hlookup : c.owner.bind g.get? = some n := by
    rw [h.capability hi c (List.mem_of_mem_filter hc)]
    exact hi
  simp [Capability.described, hlookup]

/-! ## Pools -/

namespace Wiring.Pool

variable {pool pool' : Pool} {r r' : Requirement} {cs cs' : List Capability}
  {test : Attributes → Bool}

/-- Two pools have the same modules, added capabilities and hooks, and the hooks ignore the places
at which the modules lie. -/
structure Rearranges (pool pool' : Pool) : Prop where
  graph : pool.graph.Rearranges pool'.graph
  owned : pool.graph.Owned
  owned' : pool'.graph.Owned
  hosted : pool.hosted.map (·.described pool.graph) = pool'.hosted.map (·.described pool'.graph)
  filters : pool'.filters = pool.filters
  ignoresPlaces : ∀ f ∈ pool.filters, f.IgnoresPlaces

namespace Rearranges

/-- The same capabilities are accepted, in another order. -/
theorem perm_accepted (h : pool.Rearranges pool') (ns : String) (test : Attributes → Bool) :
    ((pool.accepted ns test).map (·.described pool.graph)).Perm
      ((pool'.accepted ns test).map (·.described pool'.graph)) := by
  have hfilter (g : Graph) (cs : List Capability) (p : Capability → Bool)
      (hp : ∀ c, p c.unowned = p c) : (cs.filter p).map (·.described g) =
        (cs.map (·.described g)).filter fun x => p x.1 := by
    rw [List.filter_map]
    exact congrArg _ (List.filter_congr fun c _ => (hp c).symm)
  have htest (c : Capability) : test c.unowned.attributes = test c.attributes := rfl
  have hadded : (pool.added ns).map (·.described pool.graph) =
      (pool'.added ns).map (·.described pool'.graph) := by
    rw [added, added, hfilter _ _ (·.ns == ns) (fun _ => rfl),
      hfilter _ _ (·.ns == ns) (fun _ => rfl), h.hosted]
  have hdeclared : ((pool.declared ns).map (·.described pool.graph)).Perm
      ((pool'.declared ns).map (·.described pool'.graph)) := by
    rw [declared, declared, h.owned.map_described_capabilitiesIn,
      h.owned'.map_described_capabilitiesIn]
    exact h.graph.flatMap_right _
  simp only [accepted, List.map_append, List.map_reverse,
    hfilter _ _ (fun c : Capability => test c.attributes) htest, hadded]
  exact (hdeclared.filter _).append_left _

/-- Hooks that ignore places keep the same providers. -/
theorem perm_foldl_keep {g g' : Graph} {fs : List Hook} (hg : g.Rearranges g')
    (hr : r.described g = r'.described g') (hfs : ∀ f ∈ fs, f.IgnoresPlaces)
    (h : (cs.map (·.described g)).Perm (cs'.map (·.described g'))) :
    ((fs.foldl (fun cs f => f.keep g r cs) cs).map (·.described g)).Perm
      ((fs.foldl (fun cs f => f.keep g' r' cs) cs').map (·.described g')) := by
  induction fs generalizing cs cs' with
  | nil => exact h
  | cons f fs ih =>
    rw [List.forall_mem_cons] at hfs
    exact ih hfs.2 (hfs.1 hg hr h)

/-- **The providers are the same ones in another order.** -/
theorem perm_providers (h : pool.Rearranges pool')
    (hr : r.described pool.graph = r'.described pool'.graph) (htest : r.predicate = .ok test) :
    ∃ cs cs', pool.providers r = .ok cs ∧ pool'.providers r' = .ok cs' ∧
      (cs.map (·.described pool.graph)).Perm (cs'.map (·.described pool'.graph)) := by
  have hsame : r.unowned = r'.unowned := congrArg Prod.fst hr
  have htest' : r'.predicate = .ok test := by
    change r'.unowned.predicate = .ok test
    rw [← hsame]
    exact htest
  have hns : r'.ns = r.ns := (Requirement.mk.inj hsame).1.symm
  refine ⟨_, _, providers_eq htest, providers_eq htest', ?_⟩
  rw [visible, visible, h.filters, hns]
  exact perm_foldl_keep h.graph hr h.ignoresPlaces (h.perm_accepted _ _)

/-- A requirement of a module is found at the other place of the module too. -/
theorem exists_requirement (h : pool.Rearranges pool') {i i' : ModuleId} {n n' : Module}
    (hn : pool.graph.get? i = some n) (hn' : pool'.graph.get? i' = some n')
    (hsame : n'.unowned = n.unowned) (hr' : r' ∈ n'.requirements) :
    ∃ r ∈ n.requirements, r.described pool.graph = r'.described pool'.graph := by
  have hmem : r'.unowned ∈ n.unowned.requirements :=
    hsame ▸ List.mem_map_of_mem (f := Requirement.unowned) hr'
  obtain ⟨r, hr, hunowned⟩ := List.mem_map.1 hmem
  refine ⟨r, hr, ?_⟩
  rw [Requirement.described, Requirement.described, h.owned.requirement hn r hr,
    h.owned'.requirement hn' r' hr', Option.bind_some, Option.bind_some, hn, hn', Option.map_some,
    Option.map_some, hunowned, hsame]

/-- **What can be resolved in one pool can be resolved in the other.** -/
theorem simulates (h : pool.Rearranges pool') :
    pool.Simulates pool' (pool.graph.Counterpart pool'.graph) := by
  rintro i i' m ⟨n, n', hn, hn', hsame⟩ hm
  obtain rfl := Option.some.inj (hn.symm.trans hm)
  refine ⟨n', hn', fun r' hr' => ?_⟩
  obtain ⟨r, hr, hdescribed⟩ := h.exists_requirement hn hn' hsame hr'
  refine ⟨r, hr, (congrArg Prod.fst hdescribed).symm, fun cs hcs c hc p hp howner => ?_⟩
  obtain ⟨test, htest, -⟩ := of_mem_providers hcs hc
  obtain ⟨_, cs', hcs₀, hcs', hperm⟩ := h.perm_providers hdescribed htest
  obtain rfl := Except.ok.inj (hcs.symm.trans hcs₀)
  obtain ⟨c', hc', hcc'⟩ := List.mem_map.1 (hperm.mem_iff.1 (List.mem_map_of_mem hc))
  -- The module that provides `c` can be resolved, and so `c'` belongs to a module as well.
  obtain ⟨q, hq, -⟩ := supports_core hp
  have hlookup : (c'.owner.bind pool'.graph.get?).map Module.unowned = some q.unowned := by
    rw [show (c'.owner.bind pool'.graph.get?).map Module.unowned =
      (c.owner.bind pool.graph.get?).map Module.unowned from congrArg Prod.snd hcc', howner,
      Option.bind_some, hq, Option.map_some]
  obtain ⟨q', hq', hqq'⟩ := Option.map_eq_some_iff.1 hlookup
  obtain ⟨p', howner', hp'⟩ := Option.bind_eq_some_iff.1 hq'
  exact ⟨cs', hcs', c', hc', p', ⟨q, q', hq, hp', hqq'⟩, howner'⟩

end Rearranges

end Wiring.Pool

end StartOrder
