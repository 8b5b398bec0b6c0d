import Mathlib.Data.List.Forall2
import StartOrder.Proofs.Wiring.Resolution

/-!
# From one pool to another

Two pools may differ in their modules, in the places of these modules and in their hooks. All the
same what can be resolved in the one pool can often be resolved in the other. It suffices that
places of the first pool lead to places of the second at which no more is needed, and that whatever
meets a requirement there has a counterpart. Nothing has to be said about the order of providers,
nor about what a search tries, gives up or remembers, since the modules that can be resolved are a
greatest fixed point.

A provider has a counterpart when the second pool offers it and no hook takes it away. Hooks are
asked one after the other, so they are compared one by one, and hooks that are only there in the
first pool do not matter.

## Main definitions

* `Pool.Offers`: the capabilities that a pool has, whoever asks for them
* `Hook.Follows`: a hook keeps what another one keeps elsewhere
* `Pool.Simulates`: places of one pool lead to places of another that need no more

## Main results

* `Pool.providers_malformed`: a malformed filter goes unnoticed only where nothing is offered
* `Pool.exists_mem_providers`: a provider that is offered and kept elsewhere too
* `Pool.Simulates.mem_core`: what can be resolved in one pool can be resolved in the other
* `exists_resolve_of_mem_core`, `mem_core_of_resolve`: the core is what can be resolved
-/

namespace StartOrder

/-- Wherever the hook `f` keeps `c` for `r` in the graph `g`, the hook `f'` keeps `c'` for `r'` in
the graph `g'`. -/
def Hook.Follows (g g' : Graph) (r r' : Requirement) (c c' : Capability) (f' f : Hook) : Prop :=
  ∀ cs cs', c ∈ f.keep g r cs → c' ∈ cs' → c' ∈ f'.keep g' r' cs'

namespace Wiring

namespace Pool

variable {pool pool' : Pool} {r r' : Requirement} {c c' : Capability} {cs cs' : List Capability}
  {ns : String} {test : Attributes → Bool} {i i' : ModuleId}

/-! ## What a pool offers -/

/-- A capability is added to a pool, or a module of the pool declares it. -/
def Offers (pool : Pool) (c : Capability) : Prop :=
  c ∈ pool.hosted ∨ ∃ i n, pool.graph.get? i = some n ∧ c ∈ n.capabilities

theorem mem_added_or_declared :
    c ∈ pool.added ns ∨ c ∈ pool.declared ns ↔ pool.Offers c ∧ c.ns = ns := by
  simp only [added, declared, Graph.capabilitiesIn, Module.capabilitiesIn, List.mem_filter,
    List.mem_flatMap, beq_iff_eq, Offers]
  constructor
  · rintro (⟨hc, hns⟩ | ⟨n, hn, hc, hns⟩)
    · exact ⟨.inl hc, hns⟩
    · obtain ⟨i, hi⟩ := List.mem_iff_getElem?.1 hn
      exact ⟨.inr ⟨i, n, hi, hc⟩, hns⟩
  · rintro ⟨hc | ⟨i, n, hn, hc⟩, hns⟩
    · exact .inl ⟨hc, hns⟩
    · exact .inr ⟨n, List.mem_of_getElem? hn, hc, hns⟩

theorem mem_accepted :
    c ∈ pool.accepted ns test ↔ (pool.Offers c ∧ c.ns = ns) ∧ test c.attributes = true := by
  simp only [accepted, List.mem_append, List.mem_reverse, List.mem_filter,
    ← mem_added_or_declared, or_and_right]

theorem offers_of_mem_providers (h : pool.providers r = .ok cs) (hc : c ∈ cs) :
    pool.Offers c := by
  obtain ⟨-, -, -, -, hoffers⟩ := of_mem_providers h hc
  exact hoffers

/-- **A malformed filter goes unnoticed only where nothing is offered**, and then nothing is
provided. -/
theorem providers_malformed (h : pool.providers r = .ok cs) (hbad : r.predicate.isOk = false) :
    cs = [] ∧ ∀ c, pool.Offers c → c.ns ≠ r.ns := by
  unfold providers at h
  split at h
  · next hempty =>
    simp only [Bool.and_eq_true, List.isEmpty_iff] at hempty
    refine ⟨?_, fun c hc hns => ?_⟩
    · obtain rfl := Except.ok.inj h
      exact List.sublist_nil.1 (visible_sublist pool r [])
    · have hmem := mem_added_or_declared.2 ⟨hc, hns⟩
      simp [hempty] at hmem
  · obtain ⟨test, htest, -⟩ := map_eq_ok_iff.1 h
    simp [htest, Except.isOk, Except.toBool] at hbad

/-! ## Providers with a counterpart -/

theorem mem_foldl_keep {g g' : Graph} {fs fs' : List Hook}
    (h : List.SublistForall₂ (Hook.Follows g g' r r' c c') fs' fs)
    (hc : c ∈ fs.foldl (fun cs f => f.keep g r cs) cs) (hc' : c' ∈ cs') :
    c' ∈ fs'.foldl (fun cs f => f.keep g' r' cs) cs' := by
  induction h generalizing cs cs' with
  | nil => exact hc'
  | @cons f' f fs' fs hf _ ih =>
    have hsub := visible_sublist ⟨g, [], fs⟩ r (f.keep g r cs)
    exact ih hc (hf cs cs' (hsub.subset hc) hc')
  | cons_right _ ih => exact ih hc hc'

/-- **A provider has a counterpart** when the other pool offers it and its hooks follow. -/
theorem exists_mem_providers (h : pool.providers r = .ok cs) (hc : c ∈ cs)
    (hr : r'.unowned = r.unowned) (hc' : c'.unowned = c.unowned) (hoffers : pool'.Offers c')
    (hfilters : List.SublistForall₂ (Hook.Follows pool.graph pool'.graph r r' c c') pool'.filters
      pool.filters) :
    ∃ cs', pool'.providers r' = .ok cs' ∧ c' ∈ cs' := by
  obtain ⟨test, htest, hattributes, hns, -⟩ := of_mem_providers h hc
  obtain ⟨hsame, hattributes', -⟩ := Capability.mk.inj hc'
  have htest' : r'.predicate = .ok test := by
    change r'.unowned.predicate = .ok test
    rw [hr]
    exact htest
  have hns' : c'.ns = r'.ns := (hsame.trans hns).trans (Requirement.mk.inj hr).1.symm
  obtain rfl := Except.ok.inj (h.symm.trans (providers_eq htest))
  refine ⟨_, providers_eq htest', mem_foldl_keep hfilters hc ?_⟩
  exact mem_accepted.2 ⟨⟨hoffers, hns'⟩, hattributes'.symm ▸ hattributes⟩

/-! ## Simulations -/

/-- Places of `pool` lead to places of `pool'`. What is needed there is needed here, and what meets
it here leads to something that meets it there. -/
def Simulates (pool pool' : Pool) (R : ModuleId → ModuleId → Prop) : Prop :=
  ∀ ⦃i i' m⦄, R i i' → pool.graph.get? i = some m → ∃ m', pool'.graph.get? i' = some m' ∧
    ∀ r' ∈ m'.requirements, ∃ r ∈ m.requirements, r'.unowned = r.unowned ∧
      ∀ cs, pool.providers r = .ok cs → ∀ c ∈ cs, ∀ p ∈ pool.core, c.owner = some p →
        ∃ cs', pool'.providers r' = .ok cs' ∧ ∃ c' ∈ cs', ∃ p', R p p' ∧ c'.owner = some p'

/-- **What can be resolved in one pool can be resolved where it leads to in the other.** -/
theorem Simulates.mem_core {R : ModuleId → ModuleId → Prop} (h : pool.Simulates pool' R)
    (hi : i ∈ pool.core) (hR : R i i') : i' ∈ pool'.core := by
  -- The places to which the core leads support each other.
  refine subset_core (S := {q' | ∃ q ∈ pool.core, R q q'}) ?_ ⟨i, hi, hR⟩
  rintro q' ⟨q, hq, hqq'⟩
  obtain ⟨m, hm, hmet⟩ := supports_core hq
  obtain ⟨m', hm', hneeds⟩ := h hqq' hm
  refine ⟨m', hm', fun r' hr' heff hopt => ?_⟩
  obtain ⟨r, hr, hsame, hprovides⟩ := hneeds r' hr'
  have heff' : r.isEffective = true := by
    change r.unowned.isEffective = true
    rw [← hsame]
    exact heff
  have hopt' : r.isOptional = false := by
    change r.unowned.isOptional = false
    rw [← hsame]
    exact hopt
  obtain ⟨cs, hcs, c, hc, p, hp, howner⟩ := hmet r hr heff' hopt'
  obtain ⟨cs', hcs', c', hc', p', hpp', howner'⟩ := hprovides cs hcs c hc p hp howner
  exact ⟨cs', hcs', c', hc', p', ⟨p, hp, hpp'⟩, howner'⟩

end Pool

/-! ## Resolutions and the core -/

variable {pool : Pool} {ids : List ModuleId} {res : Resolution}

/-- The providers of every effective requirement of a module that is wired have been listed. -/
theorem Wired.exists_providers {X Y : Set ModuleId} {id : ModuleId} {rs us : List Requirement}
    {ws : List Wire} {r : Requirement} (h : Wired pool X Y id rs ws us) (hr : r ∈ rs)
    (heff : r.isEffective = true) : ∃ cs, pool.providers r = .ok cs := by
  induction h with
  | nil => cases hr
  | idle hidle _ ih =>
    rcases List.mem_cons.1 hr with rfl | hr
    · rw [hidle] at heff
      cases heff
    · exact ih hr
  | wire _ hcs _ _ _ _ ih | skip _ _ hcs _ _ ih | miss _ _ hcs _ _ ih =>
    rcases List.mem_cons.1 hr with rfl | hr
    · exact ⟨_, hcs⟩
    · exact ih hr

/-- What has been resolved belongs to the core. -/
theorem mem_core_of_resolve (h : resolve pool ids = .ok res) : ∀ id ∈ ids, id ∈ pool.core := by
  obtain ⟨-, hids, -⟩ := resolve_correct (S := ∅) (fun _ h => h.elim) h
  exact fun id hid => members_subset_core h (hids id hid)

/-- What belongs to the core can be resolved when all filters are well formed. -/
theorem exists_resolve_of_mem_core (hp : pool.graph.FiltersParse) (h : ∀ id ∈ ids, id ∈ pool.core) :
    ∃ res, resolve pool ids = .ok res := by
  obtain ⟨t, ht⟩ := exists_resolveFrom (s := {}) hp (fun _ hid => Pool.supports_core hid) h
    fun p hp => by simp at hp
  exact ⟨t.resolved, map_eq_ok_iff.2 ⟨t, ht, rfl⟩⟩

end Wiring

end StartOrder
