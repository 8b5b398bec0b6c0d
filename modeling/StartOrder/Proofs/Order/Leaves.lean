import StartOrder.Proofs.Order.Cycles
import StartOrder.Proofs.Order.Report

/-!
# Leaves start first

A module without requirements can be started before all modules that are wired to it, also when
these depend on each other in cycles. The order does so for each of them whose later wires do not
lead back to it. Otherwise the module may be moved forward, to a provider that needs it, after the
leaf has been put before it, and the leaf is left behind.

## Main definitions

* `Orderer.merged`: the entries of all resolutions that are made for an order
* `Orderer.ReturnsBehind pool m p`: behind its wire to `p` a module is wired to one that leads back
* `Orderer.Unhosted entries`: modules and handles differ, and there are no fragments

## Main results

* `Orderer.returnsBehind_of_precedes`: which wires place a provider behind another one
* `Orderer.precedes_placement`: in the order of all modules, a provider from which nothing leads
  back comes first
* `Orderer.leaf_precedes_of_order`: in a start order, leaves come first
* `Orderer.not_leaf_precedes_looped`: a leaf that is left behind
-/

namespace StartOrder

open Relation (TransGen)
open Wiring (Pool Wire Entry Resolution)

namespace Orderer

variable {α : Type} {o : Orderer} {entries : List (Module × α)} {pool : Pool} {P : Placement}
  {ids : List ModuleId} {rs : List Resolution} {m p q : ModuleId} {n n' : Module}

/-! ## Wires that lead back -/

/-- The entries of all resolutions that are made for an order, or none when there is no order. -/
def merged (pool : Pool) : List Entry :=
  ((resolutions pool).toOption.getD []).flatten

/-- Behind a wire to `p`, the module `m` is wired for the first time to another module from which
wires lead back to it. -/
def ReturnsBehind (pool : Pool) (m p : ModuleId) : Prop :=
  ∃ ws w ws', (m, ws ++ w :: ws') ∈ merged pool ∧ (∃ v ∈ ws, v.provider = p) ∧
    (∀ v ∈ ws, v.provider ≠ w.provider) ∧ w.provider ≠ m ∧ TransGen (Needs pool) w.provider m

/-- Nothing leads back behind a wire that is the last one. -/
theorem not_returnsBehind_of_forall
    (h : ∀ e ∈ merged pool, e.1 = m → ∀ w ∈ e.2.dropLast, w.provider ≠ p) :
    ¬ ReturnsBehind pool m p := by
  rintro ⟨ws, w, ws', hmem, ⟨v, hv, hvp⟩, -⟩
  refine h _ hmem rfl v ?_ hvp
  rw [List.dropLast_append_of_ne_nil (List.cons_ne_nil _ _)]
  exact List.mem_append_left _ hv

/-- A module has the same wires in all its entries. -/
theorem wires_unique (h : resolutions pool = .ok rs) {e e' : Entry} (he : e ∈ rs.flatten)
    (he' : e' ∈ rs.flatten) (heq : e.1 = e'.1) : e.2 = e'.2 := by
  obtain ⟨res, hres, he⟩ := List.mem_flatten.1 he
  obtain ⟨res', hres', he'⟩ := List.mem_flatten.1 he'
  obtain ⟨id, hid⟩ := resolve_of_mem h hres
  obtain ⟨id', hid'⟩ := resolve_of_mem h hres'
  obtain ⟨n, hn, hwired⟩ := Wiring.wired_core hid he
  obtain ⟨n', hn', hwired'⟩ := Wiring.wired_core hid' he'
  rw [heq] at hn hwired
  obtain rfl := Option.some.inj (hn.symm.trans hn')
  exact (hwired.unique hwired').1

/-- The known providers of a module are those of an entry, in the order of its wires. -/
theorem exists_entry_of_known (h : resolutions pool = .ok rs)
    (hk : Placement.Known (rs.flatten.foldl Placement.add {}).providers m q) :
    ∃ ws, (m, ws) ∈ rs.flatten ∧
      Placement.providersOf (rs.flatten.foldl Placement.add {}).providers m =
        Placement.addProviders [] ws := by
  obtain ⟨w, hw, hrequirer, -, -⟩ := (known_iff_needs h).1 hk
  obtain ⟨res, hres, ⟨m', ws⟩, he, hwe⟩ := (mem_wires h).1 hw
  obtain rfl : m' = m := (requirer_eq h hres he hwe).symm.trans hrequirer
  have hmem : (m', ws) ∈ rs.flatten := List.mem_flatten.2 ⟨res, hres, he⟩
  have hsame : ∀ e ∈ rs.flatten, e.1 = m' → e.2 = ws := fun e he' heq =>
    wires_unique h he' hmem heq
  refine ⟨ws, hmem, (Placement.providersOf_foldl_add hsame).resolve_left fun hnone => ?_⟩
  rw [Placement.Known, hnone] at hk
  cases hk

/-- A provider that is placed behind another one is reached by a wire behind one to the other. -/
theorem returnsBehind_of_precedes (h : resolutions pool = .ok rs) {ws : List Wire}
    (hmem : (m, ws) ∈ rs.flatten) (hpq : Precedes (Placement.addProviders [] ws) p q)
    (hqm : TransGen (Needs pool) q m) : ReturnsBehind pool m p := by
  obtain ⟨us, w, vs, rfl, hp, hq, hself, rfl⟩ := Placement.exists_split_of_precedes hpq
  obtain ⟨res, hres, he⟩ := List.mem_flatten.1 hmem
  have hstart {v : Wire} (hv : v ∈ us ++ w :: vs) : v.requirer = m := requirer_eq h hres he hv
  have hwm : w.provider ≠ m := by
    intro heq
    simp [Wire.isSelf, hstart (List.mem_append_right us List.mem_cons_self), heq] at hself
  refine ⟨us, w, vs, ?_, ?_, fun v hv heq => hq ?_, hwm, hqm⟩
  · rwa [merged, h]
  · obtain ⟨v, hv, -, hvp⟩ := (Placement.mem_addProviders.1 hp).resolve_left List.not_mem_nil
    exact ⟨v, hv, hvp⟩
  · refine Placement.mem_addProviders.2 (.inr ⟨v, hv, ?_, heq⟩)
    rw [Wire.isSelf, hstart (List.mem_append_left _ hv), heq]
    exact beq_false_of_ne hwm.symm

/-- When no wire leads back, the provider is clear of its requirer. -/
theorem clear_of_not_returnsBehind (h : resolutions pool = .ok rs)
    (hback : ¬ TransGen (Needs pool) p m) (hbehind : ¬ ReturnsBehind pool m p) :
    Placement.Clear (rs.flatten.foldl Placement.add {}).providers m p := by
  have hneeds : ∀ {x y}, TransGen (Placement.Known (rs.flatten.foldl Placement.add {}).providers)
      x y → TransGen (Needs pool) x y :=
    TransGen.mono (fun _ _ => (known_iff_needs h).1) _ _
  refine ⟨fun hpm => hback (hneeds hpm), fun q hpq hqm => hbehind ?_⟩
  obtain ⟨ws, hmem, hproviders⟩ := exists_entry_of_known h hpq.mem_right
  rw [hproviders] at hpq
  exact returnsBehind_of_precedes h hmem hpq (hneeds hqm)

/-! ## Providers that come first -/

/-- **A provider from which nothing leads back comes first**, before fragments are promoted. -/
theorem precedes_placement (h : placement pool = .ok P) (hneeds : Needs pool m p)
    (hback : ¬ TransGen (Needs pool) p m) (hbehind : ¬ ReturnsBehind pool m p) :
    Precedes P.order p m := by
  rw [placement, foldlM_placeModule] at h
  obtain ⟨rs, hrs, rfl⟩ := map_eq_ok_iff.1 h
  refine Placement.precedes_foldl_add List.nodup_nil (irreflexive_placement hrs)
    (clear_of_not_returnsBehind hrs hback hbehind) ?_ ((known_iff_needs hrs).2 hneeds)
  intro hknown
  simp [Placement.Known, Placement.providersOf] at hknown

/-- A module that needs another one has requirements. -/
theorem requirements_ne_nil_of_needs (h : Needs pool p q) :
    ∃ n, pool.graph.get? p = some n ∧ n.requirements ≠ [] := by
  obtain ⟨w, hw, rfl, -⟩ := h
  cases h : resolutions pool with
  | error e => simp [wires, h, Except.toOption] at hw
  | ok rs =>
    obtain ⟨res, hres, e, he, hwe⟩ := (mem_wires h).1 hw
    obtain ⟨id, hid⟩ := resolve_of_mem h hres
    obtain ⟨n, hn, hwired⟩ := Wiring.wired_core hid he
    rw [requirer_eq h hres he hwe]
    refine ⟨n, hn, fun hleaf => ?_⟩
    rw [hleaf] at hwired
    generalize e.2 = ws at hwe hwired
    cases hwired
    cases hwe

/-- A module without requirements needs no other module. -/
theorem not_needs_of_requirements_nil (hn : pool.graph.get? p = some n)
    (hleaf : n.requirements = []) : ¬ Needs pool p q := by
  intro h
  obtain ⟨n', hn', hne⟩ := requirements_ne_nil_of_needs h
  obtain rfl := Option.some.inj (hn.symm.trans hn')
  exact hne hleaf

/-- In the order of all modules, a leaf comes before a module that is wired to it. -/
theorem leaf_precedes_of_moduleOrder (h : moduleOrder pool = .ok ids)
    (hn : pool.graph.get? m = some n) (hplain : n.hostRequirements = [])
    (hn' : pool.graph.get? p = some n') (hleaf : n'.requirements = []) (hneeds : Needs pool m p)
    (hbehind : ¬ ReturnsBehind pool m p) : ids.Nodup ∧ Precedes ids p m := by
  obtain ⟨P, hP, h⟩ := bind_eq_ok_iff.1 h
  have hback : ¬ TransGen (Needs pool) p m := by
    intro hpm
    obtain ⟨q, hpq, -⟩ := TransGen.head'_iff.1 hpm
    exact not_needs_of_requirements_nil hn' hleaf hpq
  have hplain' : n'.hostRequirements = [] := Module.hostRequirements_of_requirements_nil hleaf
  obtain ⟨-, hpromoted⟩ := Fragment.promoteAll_spec h
  refine ⟨(perm_moduleOrder hP h).nodup_iff.2 Graph.nodup_ids, (hpromoted p m ?_ ?_).2 ?_⟩
  · intro k hk
    rwa [← Option.some.inj (hn'.symm.trans hk)]
  · intro k hk
    rwa [← Option.some.inj (hn.symm.trans hk)]
  · exact precedes_placement hP hneeds hback hbehind

/-! ## Start orders -/

/-- Handles can be told apart, modules differ by more than owners, and none is a fragment. -/
structure Unhosted [BEq α] (entries : List (Module × α)) : Prop where
  handles : entries.Pairwise fun a b => Apart a.2 b.2
  modules : entries.Pairwise fun a b => a.1.unowned ≠ b.1.unowned
  plain : ∀ e ∈ entries, e.1.hostRequirements = []

/-- **Leaves start first**, also where other modules depend on each other in cycles: the handle of
a module comes behind that of each module without requirements to which it is wired, unless one of
its later wires leads back to it. -/
theorem leaf_precedes_of_order [BEq α] {hs : List α} (hentries : Unhosted entries)
    (h : o.order entries = .ok hs) {a b : Module × α} (ha : a ∈ entries) (hb : b ∈ entries)
    {i j : ModuleId} (hi : (entryGraph entries).1.find? a.1 = some i)
    (hj : (entryGraph entries).1.find? b.1 = some j) (hleaf : b.1.requirements = [])
    (hneeds : Needs (o.entryPool entries) i j)
    (hbehind : ¬ ReturnsBehind (o.entryPool entries) i j) :
    hs.Pairwise Apart ∧ Precedes hs b.2 a.2 := by
  have hia : entries[i]? = some a := entry_of_find? hentries.modules ha hi
  have hjb : entries[j]? = some b := entry_of_find? hentries.modules hb hj
  have hget {k : ModuleId} {e : Module × α} (hk : entries[k]? = some e) :
      (o.entryPool entries).graph.get? k = some (e.1.ownedBy k) := by
    have hk' := get?_of_getElem? hentries.modules hk
    have hlt : k < (entryGraph entries).1.size := (List.getElem?_eq_some_iff.1 hk').1
    exact (get?_pool o o.launchApi hlt).trans hk'
  have hne : (entryGraph entries).2.isEmpty = false := by
    simp [entryGraph_eq hentries.modules, List.ne_nil_of_mem ha]
  obtain ⟨ids, hids, rfl⟩ := order_ok h hne
  obtain ⟨hnodup, hprecedes⟩ := leaf_precedes_of_moduleOrder hids (hget hia)
    (by rw [Module.hostRequirements_ownedBy, hentries.plain a ha, List.map_nil]) (hget hjb)
    (by simp [Module.ownedBy, hleaf]) hneeds hbehind
  obtain ⟨hreport, hapart⟩ := report_eq hentries.handles hnodup
  rw [entryGraph_eq hentries.modules, hreport]
  exact ⟨hapart, precedes_filterMap hia hjb hprecedes⟩

/-- A module that offers itself and requires others. -/
def linked (name : String) (needs : List String) : Module where
  identity := { symbolicName := name, version := .zero }
  capabilities := [{ ns := name }]
  requirements := needs.map fun ns => { ns := ns }

/-- Modules under their names. -/
def named (links : List (String × List String)) : List (Module × String) :=
  links.map fun (name, needs) => (linked name needs, name)

/-- Two modules need each other, and the first of them also needs a leaf. -/
def paired : List (Module × String) :=
  named [("a", ["b", "c"]), ("b", ["a"]), ("c", [])]

theorem unhosted_paired : Unhosted paired where
  handles := by simp [paired, named, Apart]
  modules := by decide
  plain := by decide

/-- The leaf comes before the module that needs it although it was put in last. -/
theorem leaf_precedes_of_order_paired :
    contractless.order paired = .ok ["c", "a", "b"] ∧ Precedes ["c", "a", "b"] "c" "a" := by
  have horder : contractless.order paired = .ok ["c", "a", "b"] := by decide +kernel
  have hbehind : ¬ ReturnsBehind (contractless.entryPool paired) 0 2 :=
    not_returnsBehind_of_forall (by decide +kernel)
  refine ⟨horder, ?_⟩
  exact (leaf_precedes_of_order (a := (linked "a" ["b", "c"], "a")) (b := (linked "c" [], "c"))
    (i := 0) (j := 2) unhosted_paired horder (by simp [paired, named]) (by simp [paired, named])
    (by decide +kernel) (by decide +kernel) rfl (by decide +kernel) hbehind).2

/-- A module needs the leaf and then one that leads back to it. -/
def looped : List (Module × String) :=
  named [("a", ["c", "e"]), ("b", ["d"]), ("c", ["a"]), ("d", ["f", "c"]), ("e", ["c", "d"]),
    ("f", [])]

theorem unhosted_looped : Unhosted looped where
  handles := by simp [looped, named, Apart]
  modules := by decide
  plain := by decide

/-- The leaf has been put before the module that needs it, which is then moved forward without
it. -/
theorem not_leaf_precedes_looped :
    Unhosted looped ∧ (linked "f" []).requirements = [] ∧
      (entryGraph looped).1.find? (linked "d" ["f", "c"]) = some 3 ∧
      (entryGraph looped).1.find? (linked "f" []) = some 5 ∧
      Needs (contractless.entryPool looped) 3 5 ∧
      contractless.order looped = .ok ["c", "d", "e", "a", "f", "b"] ∧
      ¬ Precedes ["c", "d", "e", "a", "f", "b"] "f" "d" := by
  refine ⟨unhosted_looped, rfl, by decide +kernel, by decide +kernel, by decide +kernel,
    by decide +kernel, ?_⟩
  unfold Precedes
  decide

end Orderer

end StartOrder
