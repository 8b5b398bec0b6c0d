import StartOrder.Proofs.Order.Entries
import StartOrder.Proofs.Order.Fragment
import StartOrder.Proofs.Order.Placement
import StartOrder.Proofs.Wiring.Resolution

/-!
# Providers start first

The order is put together from many resolutions, and then every fragment is moved before its
host. When no module depends on itself through the wires of all these resolutions, a module that
is no fragment starts behind every module to which it is wired. This also holds of wires to
fragments, as long as the fragment is not hosted, through however many other fragments, by a
fragment that is its own host: such a fragment is moved before another host, which may come later.

## Main definitions

* `Orderer.resolutions`, `Orderer.wires`: the resolutions that are made for an order, and all
  their wires
* `Orderer.Needs pool m p`: a wire leads from `m` to another module `p`
* `Orderer.HostedBy pool f q`: a requirement of `f` for a host is wired to `q`
* `Orderer.Anchored pool p`: no chain of hosts leads from `p` to a module that hosts itself
* `Orderer.Admissible o entries`: modules and handles differ, and requirements for hosts are plain

## Main results

* `Orderer.ordered_placement`: before fragments are promoted, all providers come first
* `Orderer.hosted_of_anchored`: an anchored fragment is wired to a host that promotion looks for
* `Orderer.precedes_of_order`: in a start order anchored providers come first
-/

namespace StartOrder

open Relation (TransGen ReflTransGen)
open Wiring (Pool Wire Entry Resolution Members)

namespace Orderer

variable {α : Type} {o : Orderer} {entries : List (Module × α)} {pool : Pool} {P : Placement}
  {ids : List ModuleId} {rs : List Resolution} {m p f q : ModuleId}

/-! ## The resolutions of an order -/

/-- The resolutions that are made while modules are placed. A module that has a place by then is
not resolved again. -/
def resolutionsFrom (pool : Pool) : Placement → List ModuleId → Except Error (List Resolution)
  | _, [] => .ok []
  | P, id :: ids =>
    if id ∈ P.order then resolutionsFrom pool P ids
    else do
      let res ← Wiring.resolve pool [id]
      return res :: (← resolutionsFrom pool (P.merge res) ids)

/-- The resolutions that are made for the order of all modules. -/
def resolutions (pool : Pool) : Except Error (List Resolution) :=
  resolutionsFrom pool {} pool.graph.ids

/-- All wires that are made for an order, or none when there is no order. -/
def wires (pool : Pool) : List Wire :=
  ((resolutions pool).toOption.getD []).flatten.flatMap Prod.snd

/-- A wire leads from `m` to another module `p`. -/
def Needs (pool : Pool) (m p : ModuleId) : Prop :=
  ∃ w ∈ wires pool, w.requirer = m ∧ w.provider = p ∧ p ≠ m

instance : Decidable (Needs pool m p) :=
  inferInstanceAs (Decidable (∃ w ∈ wires pool, w.requirer = m ∧ w.provider = p ∧ p ≠ m))

/-- A requirement of `f` for a host is wired to `q`. -/
def HostedBy (pool : Pool) (f q : ModuleId) : Prop :=
  ∃ w ∈ wires pool, w.requirer = f ∧ w.provider = q ∧ w.requirement.ns = Vocabulary.host

/-- No chain of hosts leads to a module that hosts itself. -/
def Anchored (pool : Pool) (p : ModuleId) : Prop :=
  ∀ q, ReflTransGen (HostedBy pool) p q → ¬ HostedBy pool q q

theorem Anchored.of_hostedBy (h : Anchored pool f) (hq : HostedBy pool f q) : Anchored pool q :=
  fun q' hq' => h q' (.head hq hq')

theorem anchored_of_forall
    (h : ∀ w ∈ wires pool, w.requirement.ns = Vocabulary.host → w.provider ≠ w.requirer) :
    Anchored pool p := by
  rintro q - ⟨w, hw, hrequirer, hprovider, hns⟩
  exact h w hw hns (hprovider.trans hrequirer.symm)

/-- When all wires lead to modules at higher places, no module depends on itself. -/
theorem acyclic_of_forall_le (h : ∀ w ∈ wires pool, w.requirer ≤ w.provider) (m : ModuleId) :
    ¬ TransGen (Needs pool) m m := by
  intro hm
  have hlt : TransGen (· < ·) m m := by
    refine TransGen.mono ?_ _ _ hm
    rintro _ _ ⟨w, hw, rfl, rfl, hne⟩
    exact Nat.lt_of_le_of_ne (h w hw) hne.symm
  rw [Relation.transGen_eq_self] at hlt
  exact Nat.lt_irrefl m hlt

/-- The placement of modules is made from the resolutions. -/
theorem foldlM_placeModule (pool : Pool) (P : Placement) (ids : List ModuleId) :
    ids.foldlM (placeModule pool) P =
      (resolutionsFrom pool P ids).map fun rs => rs.flatten.foldl Placement.add P := by
  induction ids generalizing P with
  | nil => rfl
  | cons id ids ih =>
    rw [List.foldlM_cons, placeModule, resolutionsFrom]
    split
    · exact ih P
    · cases Wiring.resolve pool [id] with
      | error e => rfl
      | ok res =>
        simp only [Except.map, bind, Except.bind, ih]
        cases resolutionsFrom pool (P.merge res) ids with
        | error e => rfl
        | ok rs => simp [pure, Except.pure, Placement.merge]

theorem resolve_of_mem (h : resolutionsFrom pool P ids = .ok rs) {res : Resolution}
    (hres : res ∈ rs) : ∃ id, Wiring.resolve pool [id] = .ok res := by
  induction ids generalizing P rs with
  | nil =>
    obtain rfl := Except.ok.inj h
    cases hres
  | cons id ids ih =>
    unfold resolutionsFrom at h
    split at h
    · exact ih h hres
    · obtain ⟨res', hid, h⟩ := bind_eq_ok_iff.1 h
      obtain ⟨rest, hrest, h⟩ := bind_eq_ok_iff.1 h
      obtain rfl := Except.ok.inj h
      rcases List.mem_cons.1 hres with rfl | hres
      · exact ⟨id, hid⟩
      · exact ih hrest hres

theorem mem_wires (h : resolutions pool = .ok rs) {w : Wire} :
    w ∈ wires pool ↔ ∃ res ∈ rs, ∃ e ∈ res, w ∈ e.2 := by
  simp only [wires, h, Except.toOption, Option.getD_some, List.mem_flatMap, List.mem_flatten]
  constructor
  · rintro ⟨e, ⟨res, hres, he⟩, hw⟩
    exact ⟨res, hres, e, he, hw⟩
  · rintro ⟨res, hres, e, he, hw⟩
    exact ⟨e, ⟨res, hres, he⟩, hw⟩

/-- A wire starts at the module of its entry. -/
theorem requirer_eq (h : resolutions pool = .ok rs) {res : Resolution} (hres : res ∈ rs)
    {e : Entry} (he : e ∈ res) {w : Wire} (hw : w ∈ e.2) : w.requirer = e.1 := by
  obtain ⟨id, hid⟩ := resolve_of_mem h hres
  obtain ⟨n, -, hwired⟩ := Wiring.wired_core hid he
  exact (hwired.wire_of_mem hw).1

/-! ## Providers in the placement -/

theorem known_iff_needs (h : resolutions pool = .ok rs) :
    Placement.Known (rs.flatten.foldl Placement.add {}).providers m p ↔ Needs pool m p := by
  rw [Placement.known_foldl_add]
  have hnone : ¬ Placement.Known ({} : Placement).providers m p := by
    simp [Placement.Known, Placement.providersOf]
  simp only [hnone, false_or, Needs, mem_wires h, List.mem_flatten]
  constructor
  · rintro ⟨e, ⟨res, hres, he⟩, rfl, w, hw, hself, rfl⟩
    have hrequirer := requirer_eq h hres he hw
    refine ⟨w, ⟨res, hres, e, he, hw⟩, hrequirer, rfl, fun heq => ?_⟩
    simp [Wire.isSelf, hrequirer, heq] at hself
  · rintro ⟨w, ⟨res, hres, e, he, hw⟩, rfl, rfl, hne⟩
    refine ⟨e, ⟨res, hres, he⟩, (requirer_eq h hres he hw).symm, w, hw, ?_, rfl⟩
    exact beq_false_of_ne hne.symm

/-- **Before fragments are promoted, all providers come first.** -/
theorem ordered_placement (hacyclic : ∀ m, ¬ TransGen (Needs pool) m m)
    (h : placement pool = .ok P) :
    P.order.Nodup ∧ ∀ m p, Needs pool m p → Precedes P.order p m := by
  rw [placement, foldlM_placeModule] at h
  obtain ⟨rs, hrs, rfl⟩ := map_eq_ok_iff.1 h
  have hordered := Placement.ordered_foldl_add Placement.ordered_empty fun m hm =>
    hacyclic m (TransGen.mono (fun _ _ => (known_iff_needs hrs).1) _ _ hm)
  exact ⟨hordered.nodup, fun m p hp => hordered.settled m p ((known_iff_needs hrs).2 hp)⟩

/-! ## Hosts in the wiring -/

/-- A module has an entry in one of the resolutions. -/
def Resolved (pool : Pool) (m : ModuleId) : Prop :=
  ∃ rs, resolutions pool = .ok rs ∧ ∃ res ∈ rs, m ∈ Members res

theorem resolved_of_mem_wires {w : Wire} (hw : w ∈ wires pool) : Resolved pool w.provider := by
  cases h : resolutions pool with
  | error e => simp [wires, h, Except.toOption] at hw
  | ok rs =>
    obtain ⟨res, hres, e, he, hw⟩ := (mem_wires h).1 hw
    obtain ⟨id, hid⟩ := resolve_of_mem h hres
    exact ⟨rs, h, res, hres, Wiring.provider_mem_members hid he hw⟩

/-- A requirement of a resolved module that has to be met is wired to one of its providers. -/
theorem exists_wire (hf : Resolved pool f) {n : Module} (hn : pool.graph.get? f = some n)
    {r : Requirement} (hr : r ∈ n.requirements) (heff : r.isEffective = true)
    (hopt : r.isOptional = false) :
    ∃ w ∈ wires pool, w.requirer = f ∧ w.requirement = r ∧ w.capability.owner = some w.provider ∧
      ∃ cs, pool.providers r = .ok cs ∧ w.capability ∈ cs := by
  obtain ⟨rs, hrs, res, hres, hf⟩ := hf
  obtain ⟨ws, hws⟩ := Wiring.mem_members.1 hf
  obtain ⟨id, hid⟩ := resolve_of_mem hrs hres
  obtain ⟨n', hn', hwired⟩ := Wiring.wired_core hid hws
  obtain rfl := Option.some.inj (hn.symm.trans hn')
  obtain hopen | ⟨w, hw, rfl⟩ := hwired.wire_or_open hr heff hopt
  · cases hopen
  · obtain ⟨hrequirer, howner, hprovided⟩ := hwired.wire_of_mem hw
    exact ⟨w, (mem_wires hrs).2 ⟨res, hres, _, hws, hw⟩, hrequirer, rfl, howner, hprovided⟩

/-- A module that promotion does not put further back. -/
def Steady (pool : Pool) (p : ModuleId) : Prop :=
  Anchored pool p ∧ Resolved pool p

/-- What is required of a pool so that every fragment is wired to a host that promotion looks for:
hosts are declared by modules, which own their capabilities, and each fragment has to be given a
host by a filter. -/
structure DeclaresHosts (pool : Pool) : Prop where
  owner : ∀ id n, pool.graph.get? id = some n → ∀ c ∈ n.capabilities, c.owner = some id
  hosted : ∀ c ∈ pool.hosted, c.ns ≠ Vocabulary.host
  plain : ∀ id n, pool.graph.get? id = some n → ∀ r ∈ n.hostRequirements,
    r.isEffective = true ∧ r.isOptional = false ∧ r.filter?.isSome = true

/-- A requirement for a host that has to be met is wired to a module that promotion takes for one,
as long as no capabilities for hosts are added. -/
theorem exists_isHost (howner : ∀ id n, pool.graph.get? id = some n → ∀ c ∈ n.capabilities,
    c.owner = some id) (hhosted : ∀ c ∈ pool.hosted, c.ns ≠ Vocabulary.host)
    (hf : Resolved pool f) {n : Module} (hn : pool.graph.get? f = some n) {r : Requirement}
    (hr : r ∈ n.hostRequirements) (heff : r.isEffective = true) (hopt : r.isOptional = false)
    (hfilter : r.filter?.isSome = true) :
    ∃ w ∈ wires pool, w.requirer = f ∧ w.requirement = r ∧
      ∃ n', pool.graph.get? w.provider = some n' ∧ Fragment.isHost n' r = .ok true := by
  obtain ⟨hreq, hns⟩ := List.mem_filter.1 hr
  obtain ⟨w, hw, hrequirer, rfl, hprovider, cs, hcs, hc⟩ := exists_wire hf hn hreq heff hopt
  obtain ⟨test, htest, hattributes, hcns, hadded | ⟨id, n', hn', hc'⟩⟩ :=
    Pool.of_mem_providers hcs hc
  · exact absurd (hcns.trans (eq_of_beq hns)) (hhosted _ hadded)
  · obtain rfl := Option.some.inj ((howner id n' hn' _ hc').symm.trans hprovider)
    exact ⟨w, hw, hrequirer, rfl, n', hn',
      Fragment.isHost_of_accepted hfilter htest hc' (hcns.trans (eq_of_beq hns)) hattributes⟩

/-- **An anchored fragment is wired to a host** that promotion looks for. The host is anchored as
well, and it is not the fragment. -/
theorem hosted_of_anchored (hpool : DeclaresHosts pool) {n : Module} {r : Requirement}
    (hn : pool.graph.get? f = some n) (hr : n.hostRequirements = [r]) :
    Fragment.Hosted pool.graph (Needs pool) (Steady pool) (f, r) := by
  rintro ⟨hanchored, hresolved⟩
  have hmem : r ∈ n.hostRequirements := by simp [hr]
  obtain ⟨heff, hopt, hfilter⟩ := hpool.plain f n hn r hmem
  obtain ⟨w, hw, hrequirer, rfl, n', hn', hisHost⟩ :=
    exists_isHost hpool.owner hpool.hosted hresolved hn hmem heff hopt hfilter
  have hns : w.requirement.ns = Vocabulary.host := eq_of_beq (List.mem_filter.1 hmem).2
  have hhost : HostedBy pool f w.provider := ⟨w, hw, hrequirer, rfl, hns⟩
  have hne : w.provider ≠ f := by
    intro heq
    rw [heq] at hhost
    exact hanchored f .refl hhost
  exact ⟨w.provider, n', ⟨hanchored.of_hostedBy hhost, resolved_of_mem_wires hw⟩,
    ⟨w, hw, hrequirer, rfl, hne⟩, hn', hisHost⟩

/-- **In the order of all modules anchored providers come first.** -/
theorem precedes_of_moduleOrder (hpool : DeclaresHosts pool)
    (hacyclic : ∀ m, ¬ TransGen (Needs pool) m m) (h : moduleOrder pool = .ok ids) {n : Module}
    (hn : pool.graph.get? m = some n) (hplain : n.hostRequirements = []) (hneeds : Needs pool m p)
    (hp : Anchored pool p) : ids.Nodup ∧ Precedes ids p m := by
  obtain ⟨P, hP, h⟩ := bind_eq_ok_iff.1 h
  obtain ⟨hnodup, hfirst⟩ := ordered_placement hacyclic hP
  have hahead : Fragment.Ahead (Needs pool) (Steady pool) [] P.order :=
    ⟨hnodup, fun x y _ hxy _ => hfirst y x hxy⟩
  have hhosted (id n r) (hn : pool.graph.get? id = some n) (hr : n.hostRequirements = [r]) :
      Fragment.Hosted pool.graph (Needs pool) (Steady pool) (id, r) :=
    hosted_of_anchored hpool hn hr
  have hresolved : Resolved pool p := by
    obtain ⟨w, hw, -, rfl, -⟩ := hneeds
    exact resolved_of_mem_wires hw
  exact Fragment.precedes_of_promoteAll hahead hhosted h hn hplain ⟨hp, hresolved⟩ hneeds

/-! ## Start orders -/

/-- The candidates for wires when `entries` are put in order. -/
def entryPool (o : Orderer) (entries : List (Module × α)) : Pool :=
  o.pool o.launchApi (entryGraph entries).1

/-- Handles can be told apart, modules differ by more than owners, and every fragment has to be
given a declared host by a filter. -/
structure Admissible [BEq α] (o : Orderer) (entries : List (Module × α)) : Prop where
  handles : entries.Pairwise fun a b => Apart a.2 b.2
  modules : entries.Pairwise fun a b => a.1.unowned ≠ b.1.unowned
  hosted : ∀ c ∈ o.hosted, c.ns ≠ Vocabulary.host
  plain : ∀ m ∈ o.framework :: o.launchApi :: entries.map Prod.fst, ∀ r ∈ m.hostRequirements,
    r.isEffective = true ∧ r.isOptional = false ∧ r.filter?.isSome = true

theorem Admissible.declaresHosts [BEq α] (h : o.Admissible entries) :
    DeclaresHosts (o.entryPool entries) where
  owner := fun id n hn c hc => (holdsOf_pool o o.launchApi entries).owner hn hc
  hosted := by
    intro c hc
    obtain ⟨d, hd, rfl⟩ := List.mem_map.1 hc
    exact h.hosted d hd
  plain := by
    intro id n hn r hr
    obtain ⟨m, hm, rfl⟩ := holdsOf_pool o o.launchApi entries id n hn
    rw [Module.hostRequirements_ownedBy] at hr
    obtain ⟨r', hr', rfl⟩ := List.mem_map.1 hr
    exact h.plain m hm r' hr'

theorem order_ok [BEq α] {hs : List α} (h : o.order entries = .ok hs)
    (hne : (entryGraph entries).2.isEmpty = false) :
    ∃ ids, moduleOrder (o.entryPool entries) = .ok ids ∧
      report (entryGraph entries).2 ids = hs := by
  unfold order orderWith at h
  simp only [hne, Bool.false_eq_true, ↓reduceIte] at h
  obtain ⟨_, -, h⟩ := bind_eq_ok_iff.1 h
  obtain ⟨ids, hids, h⟩ := bind_eq_ok_iff.1 h
  exact ⟨ids, hids, Except.ok.inj h⟩

/-- **Anchored providers start first.** Each handle is reported once, and the handle of a module
that is no fragment comes behind those of the anchored modules to which it is wired. -/
theorem precedes_of_order [BEq α] {hs : List α} (hadmissible : o.Admissible entries)
    (hacyclic : ∀ m, ¬ TransGen (Needs (o.entryPool entries)) m m) (h : o.order entries = .ok hs)
    {a b : Module × α} (ha : a ∈ entries) (hb : b ∈ entries) {i j : ModuleId}
    (hi : (entryGraph entries).1.find? a.1 = some i)
    (hj : (entryGraph entries).1.find? b.1 = some j) (hplain : a.1.hostRequirements = [])
    (hneeds : Needs (o.entryPool entries) i j) (hanchored : Anchored (o.entryPool entries) j) :
    hs.Pairwise Apart ∧ Precedes hs b.2 a.2 := by
  have hia : entries[i]? = some a := entry_of_find? hadmissible.modules ha hi
  have hjb : entries[j]? = some b := entry_of_find? hadmissible.modules hb hj
  have hget : (entryGraph entries).1.get? i = some (a.1.ownedBy i) :=
    get?_of_getElem? hadmissible.modules hia
  have hlt : i < (entryGraph entries).1.size := (List.getElem?_eq_some_iff.1 hget).1
  have hne : (entryGraph entries).2.isEmpty = false := by
    simp [entryGraph_eq hadmissible.modules, List.ne_nil_of_mem ha]
  obtain ⟨ids, hids, rfl⟩ := order_ok h hne
  -- What holds of the places in the order holds of the handles that are reported for them.
  obtain ⟨hnodup, hprecedes⟩ := precedes_of_moduleOrder hadmissible.declaresHosts hacyclic hids
    ((get?_pool o o.launchApi hlt).trans hget) (by simp [Module.hostRequirements_ownedBy, hplain])
    hneeds hanchored
  obtain ⟨hreport, hapart⟩ := report_eq hadmissible.handles hnodup
  rw [entryGraph_eq hadmissible.modules, hreport]
  exact ⟨hapart, precedes_filterMap hia hjb hprecedes⟩

/-- An orderer without hooks, whose platform and launch interface have no contracts. -/
def contractless : Orderer where
  framework := { identity := { symbolicName := "platform", version := .zero }, kind := .framework }
  launchArtifact := { group := "example", artifact := "launch", version := "1" }
  launchApi := { identity := { symbolicName := "launch", version := .zero }, kind := .synthetic }

/-- The capability of the server for fragments. -/
def serverHost : Capability where
  ns := Vocabulary.host
  attributes := .ofList [("name", .text "server")]

def client : Module where
  identity := { symbolicName := "client", version := .zero }
  requirements := [{ ns := "service" }]

/-- A fragment of the server with a service. It may have capabilities of its own for fragments. -/
def plugin (own : List Capability) : Module where
  identity := { symbolicName := "plugin", version := .zero }
  capabilities := { ns := "service" } :: own
  requirements :=
    [{ ns := Vocabulary.host, directives := .ofList [(Vocabulary.filter, "(name=server)")] }]

def server : Module where
  identity := { symbolicName := "server", version := .zero }
  capabilities := [serverHost]

theorem hostRequirements_plugin (own : List Capability) :
    (plugin own).hostRequirements = (plugin []).hostRequirements := rfl

/-- The client needs the service of the plugin, which is a fragment of the server. -/
def plugged (own : List Capability) : List (Module × String) :=
  [(client, "client"), (plugin own, "plugin"), (server, "server")]

theorem admissible_plugged {own : List Capability} : contractless.Admissible (plugged own) where
  handles := by simp [plugged, Apart]
  modules := by simp [plugged, client, plugin, server, Module.unowned]
  hosted := by simp [contractless]
  plain := by
    simp only [plugged, List.map_cons, List.map_nil, List.forall_mem_cons,
      hostRequirements_plugin own]
    decide +kernel

/-- The plugin comes before the client although the client was put in first. -/
theorem precedes_of_order_plugged :
    contractless.order (plugged []) = .ok ["plugin", "server", "client"] ∧
      Precedes ["plugin", "server", "client"] "plugin" "client" := by
  have horder : contractless.order (plugged []) = .ok ["plugin", "server", "client"] := by
    decide +kernel
  have hacyclic : ∀ m, ¬ TransGen (Needs (contractless.entryPool (plugged []))) m m :=
    acyclic_of_forall_le (by decide +kernel)
  have hanchored : Anchored (contractless.entryPool (plugged [])) 1 :=
    anchored_of_forall (by decide +kernel)
  refine ⟨horder, ?_⟩
  exact (precedes_of_order (a := (client, "client")) (b := (plugin [], "plugin")) (i := 0) (j := 1)
    admissible_plugged hacyclic horder (by simp [plugged]) (by simp [plugged]) (by decide +kernel)
    (by decide +kernel) (by decide +kernel) (by decide +kernel) hanchored).2

/-- A fragment that is its own host is moved before another host, and the client that needs it
does not come behind it. -/
theorem not_precedes_plugged :
    contractless.Admissible (plugged [serverHost]) ∧
      (∀ m, ¬ TransGen (Needs (contractless.entryPool (plugged [serverHost]))) m m) ∧
      (entryGraph (plugged [serverHost])).1.find? client = some 0 ∧
      (entryGraph (plugged [serverHost])).1.find? (plugin [serverHost]) = some 1 ∧
      client.hostRequirements = [] ∧ Needs (contractless.entryPool (plugged [serverHost])) 0 1 ∧
      contractless.order (plugged [serverHost]) = .ok ["client", "plugin", "server"] ∧
      ¬ Precedes ["client", "plugin", "server"] "plugin" "client" := by
  refine ⟨admissible_plugged, acyclic_of_forall_le (by decide +kernel), by decide +kernel,
    by decide +kernel, by decide +kernel, by decide +kernel, by decide +kernel, ?_⟩
  unfold Precedes
  decide

end Orderer

end StartOrder
