import StartOrder.Proofs.Order.Hosts
import StartOrder.Proofs.Wiring.Growth
import StartOrder.Proofs.Wiring.Rearrangement

/-!
# When ordering succeeds

Of the stages of an ordering only two can fail when all filters are well formed. A module that
requires more than one host is refused, and so is one that cannot be resolved. Placing modules and
promoting fragments always comes to an end with an order. So an ordering succeeds when every module
is in the core of the graph and requires at most one host, whatever the order in which the modules
were given. Only a hook that looks at the places of modules can tell one order from another.

A malformed filter is only noticed when a capability is tested against it. Where nothing is offered
in the namespace of the requirement there is no test, and if the requirement is optional the
ordering goes on without a word.

## Main definitions

* `Orderer.offered`: all capabilities that take part in an ordering

## Main results

* `Fragment.exists_promoteAll_iff`: when fragments can be promoted
* `Orderer.exists_placement_iff`: when modules can be placed
* `Orderer.exists_order_iff`: when an ordering succeeds
* `Orderer.exists_order_iff_of_perm`: success does not depend on the order of the entries when no
  hook looks at places
* `Orderer.not_offered_of_order`: which malformed filters go unnoticed
-/

namespace StartOrder

/-! ## Promotion -/

namespace Fragment

variable {g : Graph} {order : List ModuleId} {r : Requirement} {m : Module}

theorem exists_hostRequirement_iff :
    (∃ r, hostRequirement m = .ok r) ↔ m.hostRequirements.length ≤ 1 := by
  unfold hostRequirement
  rcases m.hostRequirements with _ | ⟨r, _ | ⟨r', rs⟩⟩ <;> simp

theorem exists_fragments_iff : (∃ fs, fragments g order = .ok fs) ↔
    ∀ id ∈ order, ∀ n, g.get? id = some n → n.hostRequirements.length ≤ 1 := by
  have hmap : (∃ fs, fragments g order = .ok fs) ↔ ∃ fss, order.mapM (asFragment g) = .ok fss := by
    constructor
    · rintro ⟨fs, h⟩
      obtain ⟨fss, hfss, -⟩ := map_eq_ok_iff.1 h
      exact ⟨fss, hfss⟩
    · rintro ⟨fss, h⟩
      exact ⟨fss.flatten, map_eq_ok_iff.2 ⟨fss, h, rfl⟩⟩
  rw [hmap, exists_mapM_eq_ok_iff]
  refine forall₂_congr fun id _ => ?_
  unfold asFragment
  cases g.get? id with
  | none => simp
  | some n =>
    simp only [map_eq_ok_iff, Option.some.injEq, forall_eq', ← exists_hostRequirement_iff]
    exact ⟨fun ⟨_, r, h, _⟩ => ⟨r, h⟩, fun ⟨r, h⟩ => ⟨_, r, h, rfl⟩⟩

theorem exists_isHost (hr : r.predicate.isOk = true) (m : Module) : ∃ b, isHost m r = .ok b := by
  unfold isHost
  dsimp only
  split
  · obtain ⟨test, htest⟩ := exists_eq_ok_of_isOk hr
    exact ⟨_, map_eq_ok_iff.2 ⟨test, htest, rfl⟩⟩
  · exact ⟨_, rfl⟩

theorem exists_firstHost (hr : r.predicate.isOk = true) (fragment : ModuleId)
    (order : List ModuleId) : ∃ found, firstHost g fragment r order = .ok found := by
  induction order with
  | nil => exact ⟨none, rfl⟩
  | cons id order ih =>
    unfold firstHost
    split
    · exact ih
    · split
      · exact ih
      · next m hm =>
        obtain ⟨b, hb⟩ := exists_isHost hr m
        rw [hb]
        cases b with
        | true => exact ⟨some id, rfl⟩
        | false => exact ih

/-- A fragment with a well-formed filter can be promoted in every order. -/
theorem exists_promote (hr : r.predicate.isOk = true) (fragment : ModuleId)
    (order : List ModuleId) : ∃ order', promote g order (fragment, r) = .ok order' := by
  obtain ⟨found, hfound⟩ := exists_firstHost (g := g) hr fragment order
  unfold promote
  dsimp only
  rw [hfound]
  cases found with
  | none => exact ⟨order, rfl⟩
  | some host => exact ⟨_, rfl⟩

/-- **Fragments can be promoted** when each of them requires one host only. -/
theorem exists_promoteAll_iff (hp : g.FiltersParse) :
    (∃ order', promoteAll g order = .ok order') ↔
      ∀ id ∈ order, ∀ n, g.get? id = some n → n.hostRequirements.length ≤ 1 := by
  rw [← exists_fragments_iff]
  constructor
  · rintro ⟨order', h⟩
    obtain ⟨fs, hfs, -⟩ := bind_eq_ok_iff.1 h
    exact ⟨fs, hfs⟩
  · rintro ⟨fs, hfs⟩
    obtain ⟨order', h⟩ : ∃ order', fs.foldlM (promote g) order = .ok order' := by
      refine exists_foldlM_eq_ok (fun f hf order => ?_) order
      -- A fragment is a module of the graph, so the filter by which it finds its host is read.
      obtain ⟨n, hn, hrs⟩ := (of_fragments hfs).2 f hf
      have hmem : f.2 ∈ n.hostRequirements := by simp [hrs]
      exact exists_promote (hp n (List.mem_of_getElem? hn) f.2 (List.mem_of_mem_filter hmem)) f.1
        order
    exact ⟨order', bind_eq_ok_iff.2 ⟨fs, hfs, h⟩⟩

end Fragment

namespace Orderer

open Wiring (Pool)

variable {α : Type} {o : Orderer} {entries entries' : List (Module × α)} {pool : Pool}

/-! ## The stages -/

/-- Every module that has been placed takes part in a resolution. -/
theorem exists_resolve_of_placement {P : Placement} (hP : placement pool = .ok P) {id : ModuleId}
    (hid : id ∈ pool.graph.ids) :
    ∃ ids res, Wiring.resolve pool ids = .ok res ∧ id ∈ Wiring.Members res := by
  obtain ⟨rs, hrs, res, hres, hmem⟩ :=
    resolved_of_mem_placement hP ((perm_placement hP).mem_iff.2 hid)
  obtain ⟨_, hresolve⟩ := resolve_of_mem hrs hres
  exact ⟨_, res, hresolve, hmem⟩

/-- **Modules can be placed** when all of them can be resolved. -/
theorem exists_placement_iff (hp : pool.graph.FiltersParse) :
    (∃ P, placement pool = .ok P) ↔ ∀ id ∈ pool.graph.ids, id ∈ pool.core := by
  constructor
  · rintro ⟨P, hP⟩ id hid
    obtain ⟨_, _, hresolve, hmem⟩ := exists_resolve_of_placement hP hid
    exact Wiring.members_subset_core hresolve hmem
  · intro h
    refine exists_foldlM_eq_ok (fun id hid P => ?_) ({} : Placement)
    obtain ⟨res, hres⟩ :=
      Wiring.exists_resolve_of_mem_core hp (List.forall_mem_singleton.2 (h id hid))
    unfold placeModule
    split
    · exact ⟨P, rfl⟩
    · exact ⟨P.merge res, map_eq_ok_iff.2 ⟨res, hres, rfl⟩⟩

theorem exists_moduleOrder_iff (hp : pool.graph.FiltersParse) :
    (∃ ids, moduleOrder pool = .ok ids) ↔ ∀ id n, pool.graph.get? id = some n →
      n.hostRequirements.length ≤ 1 ∧ id ∈ pool.core := by
  constructor
  · rintro ⟨ids, h⟩ id n hn
    obtain ⟨P, hP, hids⟩ := bind_eq_ok_iff.1 h
    have hid : id ∈ pool.graph.ids := Wiring.mem_ids_of_get? hn
    refine ⟨?_, (exists_placement_iff hp).1 ⟨P, hP⟩ id hid⟩
    exact (Fragment.exists_promoteAll_iff hp).1 ⟨ids, hids⟩ id ((perm_placement hP).mem_iff.2 hid)
      n hn
  · intro h
    obtain ⟨P, hP⟩ := (exists_placement_iff hp).2 fun id hid => by
      obtain ⟨n, hn⟩ :=
        Option.ne_none_iff_exists'.1 (mt Graph.get?_eq_none_iff.1 (not_not_intro hid))
      exact (h id n hn).2
    obtain ⟨ids, hids⟩ : ∃ ids, Fragment.promoteAll pool.graph P.order = .ok ids :=
      (Fragment.exists_promoteAll_iff hp).2 fun id _ n hn => (h id n hn).1
    exact ⟨ids, bind_eq_ok_iff.2 ⟨P, hP, hids⟩⟩

/-- **When an ordering succeeds.** Every module can be resolved and requires at most one host. -/
theorem exists_order_iff [BEq α] (hp : (o.entryPool entries).graph.FiltersParse)
    (hne : entries ≠ []) : (∃ hs, o.order entries = .ok hs) ↔
      ∀ id n, (o.entryPool entries).graph.get? id = some n →
        n.hostRequirements.length ≤ 1 ∧ id ∈ (o.entryPool entries).core := by
  have hempty : (entryGraph entries).2.isEmpty = false :=
    eq_false_of_ne_true fun h => hne (eq_nil_of_isEmpty_handles h)
  rw [← exists_moduleOrder_iff hp]
  constructor
  · rintro ⟨hs, h⟩
    obtain ⟨ids, hids, -⟩ := order_ok h hempty
    exact ⟨ids, hids⟩
  · rintro ⟨ids, hids⟩
    have hmodules := (exists_moduleOrder_iff hp).1 ⟨ids, hids⟩
    -- What is checked of the entries beforehand is checked of all modules by the promotion.
    have hcheck : ∀ m ∈ (entryGraph entries).1.modules,
        ∃ r, Fragment.hostRequirement m = .ok r := by
      intro m hm
      obtain ⟨id, hid⟩ := List.mem_iff_getElem?.1 hm
      have hlt : id < (entryGraph entries).1.size := (List.getElem?_eq_some_iff.1 hid).1
      exact Fragment.exists_hostRequirement_iff.2
        (hmodules id m ((get?_pool o o.launchApi hlt).trans hid)).1
    refine ⟨report (entryGraph entries).2 ids, ?_⟩
    unfold order orderWith
    simp only [hempty, Bool.false_eq_true, ↓reduceIte]
    exact bind_eq_ok_iff.2 ⟨(), forIn_eq_ok hcheck, bind_eq_ok_iff.2 ⟨ids, hids, rfl⟩⟩

/-! ## Entries in another order -/

/-- What the platform adds is described as a part of the platform. -/
theorem map_described_hosted (o : Orderer) (entries : List (Module × α)) :
    (o.entryPool entries).hosted.map (·.described (o.entryPool entries).graph) =
      o.hosted.map fun c => (c.unowned, some o.framework.unowned) := by
  obtain ⟨n, hn, hsame⟩ :=
    Graph.get?_insert_new ((entryGraph entries).1.insert o.launchApi).1 o.framework
  change List.map _ (List.map _ o.hosted) = _
  rw [List.map_map]
  refine List.map_congr_left fun c _ => ?_
  rw [← hsame]
  exact congrArg (fun m => (c.unowned, m.map Module.unowned)) hn

/-- The order of the entries only decides where their modules lie. -/
theorem rearranges_entryPool (hfilters : ∀ f ∈ o.filters, f.IgnoresPlaces)
    (h : (entries.map Prod.fst).Perm (entries'.map Prod.fst)) :
    (o.entryPool entries).Rearranges (o.entryPool entries') where
  graph := by
    rw [graph_entryPool, graph_entryPool]
    exact Graph.rearranges_ofList (h.append_right _)
  owned := (holdsOf_pool o o.launchApi entries).owned
  owned' := (holdsOf_pool o o.launchApi entries').owned
  hosted := by rw [map_described_hosted, map_described_hosted]
  filters := rfl
  ignoresPlaces := hfilters

theorem filtersParse_entryPool
    (h : ∀ m ∈ o.framework :: o.launchApi :: entries.map Prod.fst,
      ∀ r ∈ m.requirements, r.predicate.isOk = true) :
    (o.entryPool entries).graph.FiltersParse := by
  intro n hn r hr
  obtain ⟨id, hid⟩ := List.mem_iff_getElem?.1 hn
  obtain ⟨m, hm, rfl⟩ := holdsOf_pool o o.launchApi entries id n hid
  obtain ⟨d, hd, rfl⟩ := List.mem_map.1 hr
  exact h m hm d hd

/-- What can be put in order in one order of the entries can be in another. -/
theorem exists_order_of_perm [BEq α] (hfilters : ∀ f ∈ o.filters, f.IgnoresPlaces)
    (hp : (o.entryPool entries).graph.FiltersParse)
    (hp' : (o.entryPool entries').graph.FiltersParse)
    (hperm : entries.Perm entries') (h : ∃ hs, o.order entries = .ok hs) :
    ∃ hs, o.order entries' = .ok hs := by
  by_cases hne : entries = []
  · subst hne
    rwa [List.nil_perm.1 hperm]
  · have hne' : entries' ≠ [] := fun hnil => hne (List.perm_nil.1 (hnil ▸ hperm))
    rw [exists_order_iff hp hne] at h
    rw [exists_order_iff hp' hne']
    have hmodules := hperm.map Prod.fst
    intro i' n' hn'
    obtain ⟨i, _, n, hget, hn, hsame⟩ :=
      (rearranges_entryPool hfilters hmodules.symm).graph.exists_counterpart hn'
    obtain rfl := Option.some.inj (hn'.symm.trans hget)
    obtain ⟨hhosts, hcore⟩ := h i n hn
    refine ⟨?_, ?_⟩
    · have hlength (m : Module) :
          m.hostRequirements.length = m.unowned.hostRequirements.length := by
        rw [Module.hostRequirements_unowned, List.length_map]
      rwa [hlength, ← hsame, ← hlength]
    · exact (rearranges_entryPool hfilters hmodules).simulates.mem_core hcore
        ⟨n, _, hn, hn', hsame.symm⟩

/-- **Whether an ordering succeeds does not depend on the order of the entries**, when all filters
are well formed and no hook looks at the places of modules. Region filters never do
(`RegionFilter.ignoresPlaces_hook`). -/
theorem exists_order_iff_of_perm [BEq α] (hfilters : ∀ f ∈ o.filters, f.IgnoresPlaces)
    (hparse : ∀ m ∈ o.framework :: o.launchApi :: entries.map Prod.fst,
      ∀ r ∈ m.requirements, r.predicate.isOk = true)
    (hperm : entries.Perm entries') :
    (∃ hs, o.order entries = .ok hs) ↔ ∃ hs, o.order entries' = .ok hs := by
  have hp : (o.entryPool entries).graph.FiltersParse := filtersParse_entryPool hparse
  have hp' : (o.entryPool entries').graph.FiltersParse := by
    refine filtersParse_entryPool fun m hm => hparse m ?_
    exact (((hperm.map Prod.fst).cons _).cons _).mem_iff.2 hm
  exact ⟨exists_order_of_perm hfilters hp hp' hperm,
    exists_order_of_perm hfilters hp' hp hperm.symm⟩

/-- A client and a library of one feature, a stranger that is hidden from the client, and a worker
that the stranger needs. -/
def guardedEntries : List (Module × String) :=
  (Wiring.guardedModules ++ [Wiring.worker]).map fun m => (m, m.identity.symbolicName)

/-- The client finds the library behind its own place as well. -/
theorem exists_order_iff_of_perm_guarded :
    { contractless with filters := [Wiring.guarded.hook] }.order guardedEntries =
        .ok ["worker", "stranger", "library", "client"] ∧
      ∃ hs, { contractless with filters := [Wiring.guarded.hook] }.order guardedEntries.reverse =
        .ok hs := by
  have horder : { contractless with filters := [Wiring.guarded.hook] }.order guardedEntries =
      .ok ["worker", "stranger", "library", "client"] := by decide +kernel
  have hfilters : ∀ f ∈ [Wiring.guarded.hook], f.IgnoresPlaces :=
    List.forall_mem_singleton.2 Wiring.guarded.ignoresPlaces_hook
  refine ⟨horder, ?_⟩
  exact (exists_order_iff_of_perm (o := { contractless with filters := [Wiring.guarded.hook] })
    hfilters (by decide +kernel) (List.reverse_perm _).symm).1 ⟨_, horder⟩

/-- A hook that only keeps what the module at the first place provides. -/
def keepsFirst : Hook where
  keep := fun _ _ cs => cs.filter (·.owner == some 0)
  keep_sublist := fun _ _ _ => List.filter_sublist

/-- A module that needs the worker. -/
def clerk : Module where
  identity := { symbolicName := "clerk", version := .zero }
  requirements := [{ ns := "task" }]

/-- The clerk behind the worker that it needs. -/
def office : List (Module × String) :=
  [(Wiring.worker, "worker"), (clerk, "clerk")]

/-- An orderer with a hook that looks at places. -/
def choosy : Orderer :=
  { contractless with filters := [keepsFirst] }

/-- A hook that looks at places tells the orders of entries apart: the clerk has the worker at the
first place, or else nothing. -/
theorem not_exists_order_iff_of_perm_office :
    (∀ m ∈ choosy.framework :: choosy.launchApi :: office.map Prod.fst,
        ∀ r ∈ m.requirements, r.predicate.isOk = true) ∧
      office.Perm office.reverse ∧ choosy.order office = .ok ["worker", "clerk"] ∧
      ¬∃ hs, choosy.order office.reverse = .ok hs := by
  refine ⟨by decide +kernel, (List.reverse_perm _).symm, by decide +kernel, ?_⟩
  rw [← isOk_iff]
  decide +kernel

/-! ## Malformed filters -/

/-- All capabilities that take part in an ordering. -/
def offered (o : Orderer) (entries : List (Module × α)) : List Capability :=
  (o.framework :: o.launchApi :: entries.map Prod.fst).flatMap Module.capabilities ++ o.hosted

theorem exists_get?_entryPool {m : Module}
    (hm : m ∈ o.framework :: o.launchApi :: entries.map Prod.fst) :
    ∃ id n, (o.entryPool entries).graph.get? id = some n ∧ n.unowned = m.unowned := by
  have hmem : m ∈ entries.map Prod.fst ++ [o.launchApi, o.framework] := by
    simp only [List.mem_cons, List.mem_append] at hm ⊢
    tauto
  obtain ⟨id, hid⟩ := Graph.exists_find?_ofList hmem
  rw [← graph_entryPool] at hid
  obtain ⟨n, hn, hsame⟩ := Graph.get?_of_find? hid
  exact ⟨id, n, hn, hsame⟩

/-- What takes part in an ordering is offered to its modules, by some owner. -/
theorem exists_offers {c : Capability} (hc : c ∈ o.offered entries) :
    ∃ c', (o.entryPool entries).Offers c' ∧ c'.ns = c.ns := by
  rcases List.mem_append.1 hc with hc | hc
  · obtain ⟨m, hm, hc⟩ := List.mem_flatMap.1 hc
    obtain ⟨id, n, hn, hsame⟩ := exists_get?_entryPool hm
    have hmem : c.unowned ∈ n.unowned.capabilities := hsame ▸ List.mem_map_of_mem hc
    obtain ⟨c', hc', hunowned⟩ := List.mem_map.1 hmem
    have hns : c'.unowned.ns = c.unowned.ns := by rw [hunowned]
    exact ⟨c', .inr ⟨id, n, hn, hc'⟩, hns⟩
  · exact ⟨_, .inl (List.mem_map_of_mem hc), rfl⟩

/-- Every effective requirement of a module in an ordering has had its providers listed, and when
it is not optional it was given one of them. -/
theorem exists_providers_of_order [BEq α] {hs : List α} (h : o.order entries = .ok hs)
    (hne : entries ≠ []) {id : ModuleId} {n : Module} {r : Requirement}
    (hn : (o.entryPool entries).graph.get? id = some n) (hr : r ∈ n.requirements)
    (heff : r.isEffective = true) :
    ∃ cs, (o.entryPool entries).providers r = .ok cs ∧ (r.isOptional = false → cs ≠ []) := by
  have hempty : (entryGraph entries).2.isEmpty = false :=
    eq_false_of_ne_true fun h => hne (eq_nil_of_isEmpty_handles h)
  obtain ⟨ids, hids, -⟩ := order_ok h hempty
  obtain ⟨P, hP, -⟩ := bind_eq_ok_iff.1 hids
  obtain ⟨_, _, hresolve, hmem⟩ := exists_resolve_of_placement hP (Wiring.mem_ids_of_get? hn)
  obtain ⟨ws, hws⟩ := Wiring.mem_members.1 hmem
  obtain ⟨n', hn', hwired⟩ := Wiring.wired_core hresolve hws
  obtain rfl := Option.some.inj (hn.symm.trans hn')
  obtain ⟨cs, hcs⟩ := hwired.exists_providers hr heff
  refine ⟨cs, hcs, fun hopt => ?_⟩
  obtain hopen | ⟨w, hw, rfl⟩ := hwired.wire_or_open hr heff hopt
  · cases hopen
  · obtain ⟨-, -, cs', hcs', hc⟩ := hwired.wire_of_mem hw
    obtain rfl := Except.ok.inj (hcs.symm.trans hcs')
    exact List.ne_nil_of_mem hc

/-- **A malformed filter only goes unnoticed where there is nothing to test.** When an ordering
succeeds although an effective requirement has a malformed filter, the requirement is optional and
no capability in its namespace takes part. -/
theorem not_offered_of_order [BEq α] {hs : List α} {e : Module × α} {r : Requirement}
    {text : String} (he : e ∈ entries) (hr : r ∈ e.1.requirements) (heff : r.isEffective = true)
    (htext : r.filter? = some text) (hbad : (Filter.parse text).isOk = false)
    (h : o.order entries = .ok hs) :
    r.isOptional = true ∧ ∀ c ∈ o.offered entries, c.ns ≠ r.ns := by
  have hm : e.1 ∈ o.framework :: o.launchApi :: entries.map Prod.fst :=
    List.mem_cons_of_mem _ (List.mem_cons_of_mem _ (List.mem_map_of_mem he))
  obtain ⟨id, n, hn, hsame⟩ := exists_get?_entryPool hm
  have hmem : r.unowned ∈ n.unowned.requirements := hsame ▸ List.mem_map_of_mem hr
  obtain ⟨r', hr', hunowned⟩ := List.mem_map.1 hmem
  -- The requirement of the graph differs from the one of the entry in the owner alone.
  have hsame {β : Type} (p : Requirement → β) (hp : ∀ r, p r.unowned = p r) : p r' = p r := by
    rw [← hp r', hunowned, hp]
  obtain ⟨cs, hcs, hprovided⟩ := exists_providers_of_order h (List.ne_nil_of_mem he) hn hr'
    ((hsame Requirement.isEffective fun _ => rfl).trans heff)
  have hpredicate : r'.predicate.isOk = false := by
    rw [hsame Requirement.predicate fun _ => rfl, Requirement.predicate, htext]
    exact (isOk_map _ _).trans hbad
  obtain ⟨hnil, hoffers⟩ := Wiring.Pool.providers_malformed hcs hpredicate
  refine ⟨eq_true_of_ne_false fun hopt => ?_, fun c hc hns => ?_⟩
  · exact hprovided ((hsame Requirement.isOptional fun _ => rfl).trans hopt) hnil
  · obtain ⟨c', hc', hns'⟩ := exists_offers hc
    exact hoffers c' hc' ((hns'.trans hns).trans (hsame Requirement.ns fun _ => rfl).symm)

/-- A requirement that may stay open, with a filter that has no end. -/
def sloppyRequirement : Requirement where
  ns := "disk"
  directives := .ofList
    [(Vocabulary.filter, "(size>=2"), (Vocabulary.resolution, Vocabulary.optional)]

def sloppy : Module where
  identity := { symbolicName := "sloppy", version := .zero }
  requirements := [sloppyRequirement]

/-- The worker offers a capability, but not in the namespace of the malformed filter. -/
theorem not_offered_of_order_sloppy :
    contractless.order [(sloppy, "sloppy"), (Wiring.worker, "worker")] = .ok ["sloppy", "worker"] ∧
      contractless.offered [(sloppy, "sloppy"), (Wiring.worker, "worker")] =
        [{ ns := "task" }] ∧
      ∀ c ∈ contractless.offered [(sloppy, "sloppy"), (Wiring.worker, "worker")],
        c.ns ≠ "disk" := by
  have horder : contractless.order [(sloppy, "sloppy"), (Wiring.worker, "worker")] =
      .ok ["sloppy", "worker"] := by decide +kernel
  have htext : sloppyRequirement.filter? = some "(size>=2" := by decide +kernel
  refine ⟨horder, by decide +kernel, ?_⟩
  exact (not_offered_of_order (e := (sloppy, "sloppy")) (by simp) (by simp [sloppy])
    (by decide +kernel) htext (by decide +kernel) horder).2

/-- An ordering succeeds although an effective requirement has a malformed filter. -/
theorem not_aborts_sloppy :
    sloppyRequirement ∈ sloppy.requirements ∧ sloppyRequirement.isEffective = true ∧
      sloppyRequirement.filter? = some "(size>=2" ∧ (Filter.parse "(size>=2").isOk = false ∧
      contractless.order [(sloppy, "sloppy")] = .ok ["sloppy"] := by
  decide +kernel

end Orderer

end StartOrder
