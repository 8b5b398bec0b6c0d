import Mathlib.Data.List.Induction
import StartOrder.Proofs.Graph
import StartOrder.Proofs.Order.Precedence

/-!
# Modules and their handles

The modules to be started are put into a graph one after the other, and each place of the graph
gets the handle of the module that was put there first. When no two modules are equal, the places
are the positions in the list. When no two handles are equal either, the report gives every
module of an order its own handle, so that handles follow each other as the modules do.

## Main results

* `Orderer.holdsOf_pool`: what the graph of an ordering holds
* `Orderer.entryGraph_eq`: the graph and the handles of modules that differ from each other
* `Orderer.precedes_filterMap`: handles follow each other as their modules do
-/

namespace StartOrder

theorem Module.hostRequirements_ownedBy (m : Module) (id : ModuleId) :
    (m.ownedBy id).hostRequirements = m.hostRequirements.map (·.ownedBy id) := by
  simp [hostRequirements, requirementsIn, ownedBy, List.filter_map, Function.comp_def,
    Requirement.ownedBy]

theorem Module.hostRequirements_of_requirements_nil {m : Module} (h : m.requirements = []) :
    m.hostRequirements = [] := by
  simp [hostRequirements, requirementsIn, h]

namespace Orderer

variable {α : Type} {entries : List (Module × α)}

theorem entryGraph_snoc (entries : List (Module × α)) (e : Module × α) :
    entryGraph (entries ++ [e]) =
      (((entryGraph entries).1.insert e.1).1,
        if ((entryGraph entries).2.lookup ((entryGraph entries).1.insert e.1).2).isSome
        then (entryGraph entries).2
        else (entryGraph entries).2 ++ [(((entryGraph entries).1.insert e.1).2, e.2)]) := by
  unfold entryGraph
  rw [List.foldl_append]
  rfl

theorem holdsOf_entryGraph (entries : List (Module × α)) :
    (entryGraph entries).1.HoldsOf (entries.map Prod.fst) := by
  induction entries using List.reverseRecOn with
  | nil => exact Graph.holdsOf_empty
  | append_singleton entries e ih =>
    rw [entryGraph_snoc]
    refine (ih.mono ?_).insert (by simp)
    exact fun m hm => by simp_all

/-- The graph of an ordering holds the platform, the launch interface and the entries. -/
theorem holdsOf_pool (o : Orderer) (launchApi : Module) (entries : List (Module × α)) :
    (o.pool launchApi (entryGraph entries).1).graph.HoldsOf
      (o.framework :: launchApi :: entries.map Prod.fst) := by
  refine Graph.HoldsOf.insert (Graph.HoldsOf.insert ?_ (by simp)) (by simp)
  exact (holdsOf_entryGraph entries).mono fun m hm => by simp_all

theorem get?_pool (o : Orderer) (launchApi : Module) {g : Graph} {id : ModuleId}
    (hid : id < g.size) : (o.pool launchApi g).graph.get? id = g.get? id := by
  have hlt : id < (g.insert launchApi).1.size := by
    unfold Graph.insert
    split
    · exact hid
    · exact Nat.lt_of_lt_of_le hid (by simp [Graph.size])
  exact (Graph.get?_insert_old o.framework hlt).trans (Graph.get?_insert_old launchApi hid)

/-! ## Modules that differ from each other -/

theorem find?_eq_none_of_ne {ms : List Module} {m : Module}
    (h : ∀ n ∈ ms, n.unowned ≠ m.unowned) :
    Graph.find? ⟨ms.mapIdx fun i n => n.ownedBy i⟩ m = none := by
  rw [Graph.find?, List.findIdx?_eq_none_iff]
  intro n hn
  obtain ⟨i, hi, rfl⟩ := List.mem_mapIdx.1 hn
  simpa using h _ (List.getElem_mem hi)

/-- When no two modules are equal but for owners, places are positions in the list. -/
theorem entryGraph_eq (h : entries.Pairwise fun a b => a.1.unowned ≠ b.1.unowned) :
    entryGraph entries =
      (⟨(entries.map Prod.fst).mapIdx fun i m => m.ownedBy i⟩,
        entries.mapIdx fun i e => (i, e.2)) := by
  induction entries using List.reverseRecOn with
  | nil => rfl
  | append_singleton entries e ih =>
    obtain ⟨hpair, -, hne⟩ := List.pairwise_append.1 h
    have hfind : Graph.find? ⟨(entries.map Prod.fst).mapIdx fun i m => m.ownedBy i⟩ e.1 = none :=
      find?_eq_none_of_ne fun n hn => by
        obtain ⟨a, ha, rfl⟩ := List.mem_map.1 hn
        exact hne a ha e (by simp)
    have hlookup : (entries.mapIdx fun i e => (i, e.2)).lookup entries.length = none := by
      rw [List.lookup_eq_none_iff]
      intro p hp
      obtain ⟨i, hi, rfl⟩ := List.mem_mapIdx.1 hp
      simp [Nat.ne_of_gt hi]
    rw [entryGraph_snoc, ih hpair, Graph.insert_of_find?_none hfind]
    simp [Graph.size, hlookup, List.mapIdx_append]

theorem lookup_mapIdx (entries : List (Module × α)) (id : ModuleId) :
    (entries.mapIdx fun i e => (i, e.2)).lookup id = (entries[id]?).map Prod.snd := by
  induction entries using List.reverseRecOn with
  | nil => rfl
  | append_singleton entries e ih =>
    rw [List.mapIdx_concat, List.lookup_append, ih, List.lookup_cons, List.lookup_nil]
    rcases Nat.lt_trichotomy id entries.length with hid | rfl | hid
    · simp [List.getElem?_append_left hid, List.getElem?_eq_getElem hid]
    · simp
    · have hle : (entries ++ [e]).length ≤ id := by
        rw [List.length_append, List.length_singleton]
        exact hid
      rw [List.getElem?_eq_none (Nat.le_of_lt hid), List.getElem?_eq_none hle,
        beq_false_of_ne (Nat.ne_of_gt hid)]
      rfl

/-- The place that is found for an entry leads to its module and to its handle. -/
theorem entry_of_find? (h : entries.Pairwise fun a b => a.1.unowned ≠ b.1.unowned)
    {m : Module} {handle : α} (hmem : (m, handle) ∈ entries) {id : ModuleId}
    (hid : (entryGraph entries).1.find? m = some id) :
    entries[id]? = some (m, handle) := by
  obtain ⟨hlt, hsame, -⟩ := List.findIdx?_eq_some_iff_getElem.1 hid
  simp only [entryGraph_eq h, List.length_mapIdx, List.length_map] at hlt
  simp only [entryGraph_eq h, List.getElem_mapIdx, List.getElem_map, Module.unowned_ownedBy,
    beq_iff_eq] at hsame
  obtain ⟨i, hi, hget⟩ := List.mem_iff_getElem.1 hmem
  rw [List.pairwise_iff_getElem] at h
  rcases Nat.lt_trichotomy i id with hlt' | rfl | hlt'
  · exact absurd hsame.symm (by simpa [hget] using h i id hi hlt hlt')
  · rw [List.getElem?_eq_getElem hi, hget]
  · exact absurd hsame (by simpa [hget] using h id i hlt hi hlt')

theorem get?_of_getElem? (h : entries.Pairwise fun a b => a.1.unowned ≠ b.1.unowned)
    {id : ModuleId} {e : Module × α} (hid : entries[id]? = some e) :
    (entryGraph entries).1.get? id = some (e.1.ownedBy id) := by
  simp [entryGraph_eq h, Graph.get?, hid]

/-! ## Reports -/

/-- Two handles are told apart, whichever of them is asked. -/
def Apart [BEq α] (a b : α) : Prop :=
  (a == b) = false ∧ (b == a) = false

theorem foldl_report_eq [BEq α] (hs : List α) : ∀ acc : List α, (acc ++ hs).Pairwise Apart →
    hs.foldl (fun hs h => if hs.contains h then hs else hs ++ [h]) acc = acc ++ hs := by
  induction hs with
  | nil => simp
  | cons h hs ih =>
    intro acc hpair
    have hnew : acc.contains h = false := by
      rw [List.contains_eq_any_beq, List.any_eq_false]
      intro a ha
      simp [((List.pairwise_append.1 hpair).2.2 a ha h List.mem_cons_self).2]
    rw [List.foldl_cons, hnew, if_neg Bool.false_ne_true, ih _ (by simpa using hpair)]
    simp

/-- When the handles can be told apart, each module of an order has its own place in the report. -/
theorem report_eq [BEq α] (hhandles : entries.Pairwise fun a b => Apart a.2 b.2)
    {order : List ModuleId} (ho : order.Nodup) :
    report (entries.mapIdx fun i e => (i, e.2)) order =
        order.filterMap (fun id => (entries[id]?).map Prod.snd) ∧
      (order.filterMap fun id => (entries[id]?).map Prod.snd).Pairwise Apart := by
  have hpair : (order.filterMap fun id => (entries[id]?).map Prod.snd).Pairwise Apart := by
    rw [List.pairwise_filterMap]
    refine ho.imp ?_
    intro i j hij a ha b hb
    obtain ⟨e, hi, rfl⟩ := Option.map_eq_some_iff.1 ha
    obtain ⟨e', hj, rfl⟩ := Option.map_eq_some_iff.1 hb
    obtain ⟨hilt, rfl⟩ := List.getElem?_eq_some_iff.1 hi
    obtain ⟨hjlt, rfl⟩ := List.getElem?_eq_some_iff.1 hj
    rw [List.pairwise_iff_getElem] at hhandles
    rcases Nat.lt_or_gt_of_ne hij with hlt | hlt
    · exact hhandles i j hilt hjlt hlt
    · exact (hhandles j i hjlt hilt hlt).symm
  refine ⟨?_, hpair⟩
  simp only [report, lookup_mapIdx]
  simpa using foldl_report_eq _ [] (by simpa using hpair)

/-- Handles that can be told apart follow each other as their modules do. -/
theorem precedes_filterMap {order : List ModuleId} {i j : ModuleId} {e e' : Module × α}
    (hi : entries[i]? = some e) (hj : entries[j]? = some e') (h : Precedes order j i) :
    Precedes (order.filterMap fun id => (entries[id]?).map Prod.snd) e'.2 e.2 := by
  have hsub := List.Sublist.filterMap (fun id => (entries[id]?).map Prod.snd) h
  unfold Precedes
  simpa [hi, hj] using hsub

end Orderer

end StartOrder
