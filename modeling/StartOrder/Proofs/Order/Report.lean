import Mathlib.Data.List.Forall2
import StartOrder.Proofs.Order.Movement
import StartOrder.Proofs.Order.ProviderFirst

/-!
# Every module and every handle has one place

The order of all modules is put together by taking modules out and putting them in elsewhere, and
fragments are moved once more at the end. All the same it holds every module of the graph exactly
once, before and after the fragments are promoted, and whatever cycles there are. The handles are
then reported as they are met for the first time along the order, so that each handle which is the
first one of some module is reported, once, at the place of the first of its modules.

Handles are compared by an equality of their own, which need not tell all of them apart and under
which a handle need not even be equal to itself.

## Main definitions

* `Orderer.firstHandle entries m`: the handle that is given first for a module
* `Orderer.Introduces`: a module is the first of an order with its handle
* `Orderer.Reports`: what a report of handles along an order is

## Main results

* `Orderer.perm_placement`, `Orderer.perm_moduleOrder`: each module has one place
* `Orderer.lookup_entryGraph`: each place of the graph has the first handle of its module
* `Orderer.reports_of_order`: the handles of a start order
-/

namespace StartOrder

open Wiring (Pool Entry Resolution Members)

namespace Orderer

variable {α : Type} {o : Orderer} {entries : List (Module × α)} {pool : Pool} {P : Placement}
  {ids order : List ModuleId} {rs : List Resolution} {id : ModuleId} {m : Module} {e : Module × α}

/-! ## The modules of an order -/

/-- The wires of an order are known without those that lead back to the module itself. -/
theorem irreflexive_placement (h : resolutions pool = .ok rs) :
    Placement.Irreflexive (rs.flatten.foldl Placement.add {}).providers := by
  intro m hm
  obtain ⟨w, -, -, -, hne⟩ := (known_iff_needs h).1 hm
  exact hne rfl

/-- Every module that is to be placed gets a place: either it has one by then, or it is
resolved. -/
theorem mem_order_of_resolutionsFrom (h : resolutionsFrom pool P ids = .ok rs)
    (ho : P.order.Nodup)
    (hirrefl : Placement.Irreflexive (rs.flatten.foldl Placement.add P).providers) :
    ∀ id ∈ ids, id ∈ (rs.flatten.foldl Placement.add P).order := by
  induction ids generalizing P rs with
  | nil => simp
  | cons id ids ih =>
    rw [List.forall_mem_cons]
    unfold resolutionsFrom at h
    split at h
    · next hid => exact ⟨(Placement.mem_foldl_add ho hirrefl).1 id hid, ih h ho hirrefl⟩
    · obtain ⟨res, hres, h⟩ := bind_eq_ok_iff.1 h
      obtain ⟨rest, hrest, h⟩ := bind_eq_ok_iff.1 h
      obtain rfl := Except.ok.inj h
      constructor
      · obtain ⟨-, hmandatory, -⟩ := Wiring.resolve_correct (S := ∅) (fun _ h => h.elim) hres
        obtain ⟨ws, hws⟩ := Wiring.mem_members.1 (hmandatory id (List.mem_singleton.2 rfl))
        refine (Placement.mem_foldl_add ho hirrefl).2.1 (id, ws) ?_
        exact List.mem_flatten.2 ⟨res, List.mem_cons_self, hws⟩
      · rw [List.flatten_cons, List.foldl_append] at hirrefl ⊢
        refine ih hrest ?_ hirrefl
        exact Placement.nodup_foldl_add ho hirrefl.of_foldl_add

/-- A module that takes part in a resolution is a module of the graph. -/
theorem mem_ids_of_members {res : Resolution} (hres : Wiring.resolve pool ids = .ok res)
    (hid : id ∈ Members res) : id ∈ pool.graph.ids := by
  obtain ⟨n, hn, -⟩ := Wiring.members_supports hres hid
  exact Wiring.mem_ids_of_get? hn

/-- A module is only given a place when it takes part in a resolution. -/
theorem resolved_of_mem_placement (h : placement pool = .ok P) (hid : id ∈ P.order) :
    Resolved pool id := by
  rw [placement, foldlM_placeModule] at h
  obtain ⟨rs, hrs, rfl⟩ := map_eq_ok_iff.1 h
  rcases (Placement.mem_foldl_add (P := {}) List.nodup_nil (irreflexive_placement hrs)).2.2 id hid
    with hid | ⟨e, he, rfl⟩ | ⟨m, hm⟩
  · cases hid
  · obtain ⟨res, hres, he⟩ := List.mem_flatten.1 he
    exact ⟨rs, hrs, res, hres, Wiring.mem_members.2 ⟨e.2, he⟩⟩
  · obtain ⟨w, hw, -, rfl, -⟩ := (known_iff_needs hrs).1 hm
    exact resolved_of_mem_wires hw

/-- **After all resolutions have been merged, each module has one place.** -/
theorem perm_placement (h : placement pool = .ok P) : P.order.Perm pool.graph.ids := by
  have hresolved {x} (hx : x ∈ P.order) : Resolved pool x := resolved_of_mem_placement h hx
  rw [placement, foldlM_placeModule] at h
  obtain ⟨rs, hrs, rfl⟩ := map_eq_ok_iff.1 h
  have hirrefl := irreflexive_placement hrs
  have hnodup := Placement.nodup_foldl_add (P := {}) List.nodup_nil hirrefl
  rw [List.perm_ext_iff_of_nodup hnodup Graph.nodup_ids]
  intro x
  constructor
  · intro hx
    obtain ⟨rs', hrs', res, hres, hmem⟩ := hresolved hx
    obtain ⟨id, hid⟩ := resolve_of_mem hrs' hres
    exact mem_ids_of_members hid hmem
  · exact mem_order_of_resolutionsFrom hrs List.nodup_nil hirrefl x

/-- **After fragments have been promoted, each module has one place.** -/
theorem perm_moduleOrder (h : placement pool = .ok P)
    (hids : Fragment.promoteAll pool.graph P.order = .ok ids) : ids.Perm pool.graph.ids :=
  (Fragment.promoteAll_spec hids).1.trans (perm_placement h)

/-! ## The handles of modules -/

/-- The handle that is given first for a module. -/
def firstHandle (entries : List (Module × α)) (m : Module) : Option α :=
  (entries.find? fun e => e.1.unowned == m.unowned).map Prod.snd

theorem firstHandle_congr {m' : Module} (h : m.unowned = m'.unowned) :
    firstHandle entries m = firstHandle entries m' := by
  rw [firstHandle, firstHandle, h]

theorem isSome_firstHandle (he : e ∈ entries) (h : e.1.unowned = m.unowned) :
    (firstHandle entries m).isSome = true := by
  rw [firstHandle, Option.isSome_map, List.find?_isSome]
  exact ⟨e, he, beq_iff_eq.2 h⟩

theorem mem_of_firstHandle {h : α} (hm : firstHandle entries m = some h) :
    ∃ e ∈ entries, e.1.unowned = m.unowned ∧ e.2 = h := by
  obtain ⟨e, he, heq⟩ := Option.map_eq_some_iff.1 hm
  have hsame := List.find?_some he
  exact ⟨e, List.mem_of_find?_eq_some he, eq_of_beq hsame, heq⟩

/-- One more entry gives a handle to modules that have none. -/
theorem firstHandle_snoc : firstHandle (entries ++ [e]) m =
    (firstHandle entries m).or (if e.1.unowned = m.unowned then some e.2 else none) := by
  rw [firstHandle, firstHandle, List.find?_append]
  cases entries.find? fun e => e.1.unowned == m.unowned with
  | some e' => rfl
  | none =>
    rw [Option.none_or, Option.map_none, Option.none_or]
    by_cases h : e.1.unowned = m.unowned <;> simp [h]

theorem fst_entryGraph (entries : List (Module × α)) :
    (entryGraph entries).1 = .ofList (entries.map Prod.fst) := by
  induction entries using List.reverseRecOn with
  | nil => rfl
  | append_singleton entries e ih =>
    rw [entryGraph_snoc, ih, List.map_append, List.map_singleton, Graph.ofList_snoc]

/-- The graph of an ordering is that of the entries, the launch interface and the platform. -/
theorem graph_entryPool (o : Orderer) (entries : List (Module × α)) :
    (o.entryPool entries).graph =
      .ofList (entries.map Prod.fst ++ [o.launchApi, o.framework]) := by
  rw [List.append_cons, Graph.ofList_snoc, Graph.ofList_snoc, ← fst_entryGraph]
  rfl

/-- The module of an entry has a place. -/
theorem exists_place (he : e ∈ entries) : ∃ id n, (entryGraph entries).1.find? e.1 = some id ∧
    (entryGraph entries).1.get? id = some n ∧ n.unowned = e.1.unowned := by
  obtain ⟨id, hid⟩ := Graph.exists_find?_ofList (List.mem_map_of_mem he (f := Prod.fst))
  rw [← fst_entryGraph] at hid
  obtain ⟨n, hn, hsame⟩ := Graph.get?_of_find? hid
  exact ⟨id, n, hid, hn, hsame⟩

/-- A module without a place has no handle. -/
theorem firstHandle_eq_none (h : (entryGraph entries).1.find? m = none) :
    firstHandle entries m = none := by
  rw [Option.eq_none_iff_forall_ne_some]
  intro a ha
  obtain ⟨e, he, hsame, -⟩ := mem_of_firstHandle ha
  obtain ⟨id, -, hid, -⟩ := exists_place he
  rw [Graph.find?_congr hsame, h] at hid
  cases hid

/-- **Each place of the graph has the first handle of its module.** -/
theorem lookup_entryGraph (entries : List (Module × α)) (id : ModuleId) :
    (entryGraph entries).2.lookup id =
      ((entryGraph entries).1.get? id).bind (firstHandle entries) := by
  induction entries using List.reverseRecOn generalizing id with
  | nil => rfl
  | append_singleton entries e ih =>
    have hsome {id n} (hn : (entryGraph entries).1.get? id = some n) :
        (firstHandle entries n).isSome = true := by
      obtain ⟨m, hm, rfl⟩ := holdsOf_entryGraph entries id n hn
      obtain ⟨e', he', rfl⟩ := List.mem_map.1 hm
      exact isSome_firstHandle he' (Module.unowned_ownedBy _ _).symm
    have hold {id n} (hn : (entryGraph entries).1.get? id = some n) :
        firstHandle (entries ++ [e]) n = firstHandle entries n := by
      rw [firstHandle_snoc, Option.or_of_isSome (hsome hn)]
    rw [entryGraph_snoc]
    cases hfind : (entryGraph entries).1.find? e.1 with
    | some id₀ =>
      obtain ⟨n, hn, -⟩ := Graph.get?_of_find? hfind
      have hlookup : ((entryGraph entries).2.lookup id₀).isSome = true := by
        rw [ih, hn]
        exact hsome hn
      rw [Graph.insert_of_find?_some hfind, if_pos hlookup, ih]
      cases hget : (entryGraph entries).1.get? id with
      | none => rfl
      | some n => exact (hold hget).symm
    | none =>
      have hlast : (entryGraph entries).2.lookup (entryGraph entries).1.size = none := by
        rw [ih, Graph.get?_eq_none_iff.2 (by simp)]
        rfl
      have hsnd : ((entryGraph entries).1.insert e.1).2 = (entryGraph entries).1.size := by
        rw [Graph.insert_of_find?_none hfind]
      rw [hsnd, hlast, Option.isSome_none, if_neg Bool.false_ne_true, List.lookup_append, ih,
        Graph.get?_insert_of_find?_none hfind, List.lookup_cons, List.lookup_nil]
      by_cases hid : id = (entryGraph entries).1.size
      · subst hid
        rw [Graph.get?_eq_none_iff.2 (by simp), if_pos rfl, Option.bind_some,
          firstHandle_congr (Module.unowned_ownedBy e.1 _), firstHandle_snoc,
          firstHandle_eq_none hfind, if_pos rfl,
          beq_self_eq_true]
        rfl
      · rw [if_neg hid, beq_false_of_ne hid, Option.or_none]
        cases hget : (entryGraph entries).1.get? id with
        | none => rfl
        | some n => exact (hold hget).symm

/-- The stand-ins have handles only where an entry has the same module. -/
theorem lookup_entryPool (o : Orderer) (entries : List (Module × α)) (id : ModuleId) :
    (entryGraph entries).2.lookup id =
      ((o.entryPool entries).graph.get? id).bind (firstHandle entries) := by
  rw [lookup_entryGraph]
  by_cases hid : id < (entryGraph entries).1.size
  · rw [entryPool, get?_pool o o.launchApi hid]
  · rw [Graph.get?_eq_none_iff.2 (by simpa using hid), Option.bind_none, eq_comm,
      Option.bind_eq_none_iff]
    intro n hn
    rw [Option.eq_none_iff_forall_ne_some]
    intro h hh
    -- Otherwise the module of an entry would have a second place.
    obtain ⟨e, he, hsame, -⟩ := mem_of_firstHandle hh
    obtain ⟨id', n', -, hn', hsame'⟩ := exists_place he
    have hlt : id' < (entryGraph entries).1.size := (List.getElem?_eq_some_iff.1 hn').1
    have hget : (o.entryPool entries).graph.get? id' = some n' :=
      (get?_pool o o.launchApi hlt).trans hn'
    have hdistinct : (o.entryPool entries).graph.Distinct := by
      rw [graph_entryPool]
      exact Graph.distinct_ofList _
    obtain rfl := hdistinct id id' n n' hn hget (hsame.symm.trans hsame'.symm)
    exact hid hlt

/-- There are only no handles when there are no modules. -/
theorem eq_nil_of_isEmpty_handles (h : (entryGraph entries).2.isEmpty = true) : entries = [] := by
  rw [List.isEmpty_iff] at h
  rw [List.eq_nil_iff_forall_not_mem]
  intro e he
  obtain ⟨id, n, -, hn, hsame⟩ := exists_place he
  have hlookup := lookup_entryGraph entries id
  rw [h, hn, Option.bind_some, firstHandle_congr hsame] at hlookup
  have hsome := isSome_firstHandle he (m := e.1) rfl
  rw [← hlookup] at hsome
  cases hsome

/-- The handles of a start order are reported along an order of all modules. -/
theorem exists_report_of_order [BEq α] {hs : List α} (h : o.order entries = .ok hs) :
    entries = [] ∧ hs = [] ∨ ∃ ids, moduleOrder (o.entryPool entries) = .ok ids ∧
      ids.Perm (o.entryPool entries).graph.ids ∧ hs = report (entryGraph entries).2 ids := by
  cases hempty : (entryGraph entries).2.isEmpty with
  | true =>
    left
    unfold order orderWith at h
    simp only [hempty, ↓reduceIte] at h
    exact ⟨eq_nil_of_isEmpty_handles hempty, (Except.ok.inj h).symm⟩
  | false =>
    obtain ⟨ids, hids, rfl⟩ := order_ok h hempty
    obtain ⟨P, hP, hpromote⟩ := bind_eq_ok_iff.1 hids
    exact .inr ⟨ids, hids, perm_moduleOrder hP hpromote, rfl⟩

/-! ## Reports along an order -/

section Reports

variable [BEq α] {f : ModuleId → Option α} {h : α} {hs : List α}

/-- A module is the first of an order whose handle is equal to its handle `h`. -/
def Introduces (f : ModuleId → Option α) (order : List ModuleId) (id : ModuleId) (h : α) : Prop :=
  id ∈ order ∧ f id = some h ∧
    ∀ x h', Precedes order x id → f x = some h' → (h' == h) = false

/-- The handles `hs` are those that `f` gives to the modules of an order, each where it is met for
the first time. -/
structure Reported (f : ModuleId → Option α) (order : List ModuleId) (hs : List α) : Prop where
  apart : hs.Pairwise Apart
  complete : ∀ id ∈ order, ∀ h, f id = some h → ∃ h' ∈ hs, h' = h ∨ (h' == h) = true
  ranked : ∃ firsts, firsts.Sublist order ∧ List.Forall₂ (Introduces f order) firsts hs

/-- A module stays the first with its handle when the order is continued. -/
theorem Introduces.snoc {x : ModuleId} (hx : Introduces f order x h) (hid : id ∉ order) :
    Introduces f (order ++ [id]) x h := by
  obtain ⟨hmem, hf, hfirst⟩ := hx
  refine ⟨List.mem_append_left _ hmem, hf, fun y h' hy => ?_⟩
  rcases precedes_snoc.1 hy with hy | ⟨-, rfl⟩
  · exact hfirst y h' hy
  · exact absurd hmem hid

/-- A handle that is not contained in a report is told apart from all that are. -/
theorem apart_of_contains [PartialEquivBEq α] (hnew : hs.contains h = false) :
    ∀ h' ∈ hs, Apart h' h := by
  intro h' hh'
  rw [List.contains_eq_any_beq, List.any_eq_false] at hnew
  have hne : (h == h') = false := eq_false_of_ne_true (hnew h' hh')
  exact ⟨BEq.symm_false hne, hne⟩

namespace Reported

theorem ranked_snoc (hr : Reported f order hs) (hid : id ∉ order) :
    ∃ firsts, firsts.Sublist order ∧ List.Forall₂ (Introduces f (order ++ [id])) firsts hs := by
  obtain ⟨firsts, hsub, hfirsts⟩ := hr.ranked
  exact ⟨firsts, hsub, hfirsts.imp (fun _ _ hx => hx.snoc hid)⟩

/-- Nothing is reported for a module without a handle. -/
theorem skip (hr : Reported f order hs) (hid : id ∉ order) (hf : f id = none) :
    Reported f (order ++ [id]) hs where
  apart := hr.apart
  complete := by
    intro x hx h hxh
    rcases List.mem_append.1 hx with hx | hx
    · exact hr.complete x hx h hxh
    · rw [List.mem_singleton.1 hx, hf] at hxh
      cases hxh
  ranked := by
    obtain ⟨firsts, hsub, hfirsts⟩ := hr.ranked_snoc hid
    exact ⟨firsts, hsub.trans (List.sublist_append_left _ _), hfirsts⟩

/-- Nothing is reported for a module whose handle is equal to one that has been reported. -/
theorem drop [PartialEquivBEq α] (hr : Reported f order hs) (hid : id ∉ order)
    (hf : f id = some h) (hmem : hs.contains h = true) : Reported f (order ++ [id]) hs where
  apart := hr.apart
  complete := by
    intro x hx h' hxh
    rcases List.mem_append.1 hx with hx | hx
    · exact hr.complete x hx h' hxh
    · rw [List.mem_singleton.1 hx, hf, Option.some_inj] at hxh
      subst hxh
      obtain ⟨h', hh', heq⟩ := List.contains_iff_exists_mem_beq.1 hmem
      exact ⟨h', hh', .inr (BEq.symm heq)⟩
  ranked := by
    obtain ⟨firsts, hsub, hfirsts⟩ := hr.ranked_snoc hid
    exact ⟨firsts, hsub.trans (List.sublist_append_left _ _), hfirsts⟩

/-- A handle that is equal to none so far is reported. -/
theorem push [PartialEquivBEq α] (hr : Reported f order hs) (hid : id ∉ order)
    (hf : f id = some h) (hnew : hs.contains h = false) :
    Reported f (order ++ [id]) (hs ++ [h]) where
  apart := by
    rw [List.pairwise_append]
    refine ⟨hr.apart, List.pairwise_singleton _ _, fun h' hh' h'' hh'' => ?_⟩
    rw [List.mem_singleton.1 hh'']
    exact apart_of_contains hnew h' hh'
  complete := by
    intro x hx h' hxh
    rcases List.mem_append.1 hx with hx | hx
    · obtain ⟨h'', hh'', heq⟩ := hr.complete x hx h' hxh
      exact ⟨h'', List.mem_append_left _ hh'', heq⟩
    · rw [List.mem_singleton.1 hx, hf, Option.some_inj] at hxh
      exact ⟨h, List.mem_append_right _ (List.mem_singleton_self h), .inl hxh⟩
  ranked := by
    obtain ⟨firsts, hsub, hfirsts⟩ := hr.ranked_snoc hid
    refine ⟨firsts ++ [id], hsub.append (List.Sublist.refl _), ?_⟩
    refine List.rel_append hfirsts (.cons ⟨?_, hf, fun x h' hx hxh => ?_⟩ .nil)
    · exact List.mem_append_right _ (List.mem_singleton_self id)
    · have hmem : x ∈ order := by
        rcases precedes_snoc.1 hx with hx | ⟨hx, -⟩
        · exact hx.mem_left
        · exact hx
      obtain ⟨h'', hh'', heq⟩ := hr.complete x hmem h' hxh
      have hapart := (apart_of_contains hnew h'' hh'').1
      rcases heq with rfl | heq
      · exact hapart
      · refine eq_false_of_ne_true fun hh => ?_
        rw [BEq.trans heq hh] at hapart
        cases hapart

end Reported

theorem Reported.given (hr : Reported f order hs) : ∀ h ∈ hs, ∃ id ∈ order, f id = some h := by
  obtain ⟨firsts, -, hfirsts⟩ := hr.ranked
  clear hr
  induction hfirsts with
  | nil => simp
  | cons hx _ ih => exact List.forall_mem_cons.2 ⟨⟨_, hx.1, hx.2.1⟩, ih⟩

/-- **A report along an order.** Each handle is reported for the first module that has it. -/
theorem reported_report [PartialEquivBEq α] (handles : List (ModuleId × α)) (ho : order.Nodup) :
    Reported (handles.lookup ·) order (report handles order) := by
  induction order using List.reverseRecOn with
  | nil =>
    exact ⟨List.Pairwise.nil, fun id hid => absurd hid List.not_mem_nil,
      [], List.Sublist.refl _, .nil⟩
  | append_singleton order id ih =>
    obtain ⟨hid, ho⟩ : id ∉ order ∧ order.Nodup :=
      List.nodup_cons.1 ((List.perm_append_singleton _ _).nodup_iff.1 ho)
    have hr := ih ho
    have hreport : report handles (order ++ [id]) =
        (handles.lookup id).toList.foldl (fun hs h => if hs.contains h then hs else hs ++ [h])
          (report handles order) := by
      rw [report, List.filterMap_append, List.foldl_append, ← report]
      cases hf : handles.lookup id <;> simp [hf]
    rw [hreport]
    cases hf : handles.lookup id with
    | none => exact hr.skip hid hf
    | some h =>
      rw [Option.toList_some, List.foldl_cons, List.foldl_nil]
      split
      · next hmem => exact hr.drop hid hf hmem
      · next hmem => exact hr.push hid hf (eq_false_of_ne_true hmem)

/-! ## The handles of a start order -/

/-- The handles `hs` are the first ones of the modules in an order. -/
structure Reports (entries : List (Module × α)) (g : Graph) (order : List ModuleId)
    (hs : List α) : Prop where
  /-- No two handles are equal. -/
  apart : hs.Pairwise Apart
  /-- Nothing is reported but first handles of modules. -/
  given : ∀ h ∈ hs, ∃ e ∈ entries, firstHandle entries e.1 = some h
  /-- The first handle of every module is reported, or an equal one. -/
  complete : ∀ e ∈ entries, ∃ h, firstHandle entries e.1 = some h ∧
    ∃ h' ∈ hs, h' = h ∨ (h' == h) = true
  /-- Each handle has the rank of the first module that has it. -/
  ranked : ∃ firsts, firsts.Sublist order ∧
    List.Forall₂ (Introduces (fun id => (g.get? id).bind (firstHandle entries)) order) firsts hs

theorem reports_report [PartialEquivBEq α] (hids : ids.Perm (o.entryPool entries).graph.ids) :
    Reports entries (o.entryPool entries).graph ids (report (entryGraph entries).2 ids) := by
  have hr := reported_report (entryGraph entries).2 (hids.nodup_iff.2 Graph.nodup_ids)
  simp only [lookup_entryPool o] at hr
  refine ⟨hr.apart, ?_, ?_, hr.ranked⟩
  · intro h hh
    obtain ⟨id, -, hid⟩ := hr.given h hh
    obtain ⟨m, -, hm⟩ := Option.bind_eq_some_iff.1 hid
    obtain ⟨e, he, hsame, -⟩ := mem_of_firstHandle hm
    exact ⟨e, he, (firstHandle_congr hsame).trans hm⟩
  · intro e he
    obtain ⟨h, hh⟩ := Option.isSome_iff_exists.1 (isSome_firstHandle (m := e.1) he rfl)
    have hmem : e.1 ∈ entries.map Prod.fst ++ [o.launchApi, o.framework] :=
      List.mem_append_left _ (List.mem_map_of_mem he)
    obtain ⟨id, hid⟩ := Graph.exists_find?_ofList hmem
    rw [← graph_entryPool] at hid
    obtain ⟨n, hn, hsame⟩ := Graph.get?_of_find? hid
    refine ⟨h, hh, hr.complete id (hids.mem_iff.2 (Wiring.mem_ids_of_get? hn)) h ?_⟩
    rw [hn, Option.bind_some, firstHandle_congr hsame, hh]

/-- **Nothing is lost and nothing is reported twice.** Every module of the graph has one place in
the order of all modules, also after fragments have been moved, and the handles that are reported
are the first ones of the entries' modules. -/
theorem reports_of_order [PartialEquivBEq α] (h : o.order entries = .ok hs) :
    entries = [] ∧ hs = [] ∨ ∃ P ids,
      (o.entryPool entries).graph = .ofList (entries.map Prod.fst ++ [o.launchApi, o.framework]) ∧
      placement (o.entryPool entries) = .ok P ∧ P.order.Perm (o.entryPool entries).graph.ids ∧
      Fragment.promoteAll (o.entryPool entries).graph P.order = .ok ids ∧
      ids.Perm (o.entryPool entries).graph.ids ∧
      Reports entries (o.entryPool entries).graph ids hs := by
  cases hempty : (entryGraph entries).2.isEmpty with
  | true =>
    left
    unfold order orderWith at h
    simp only [hempty, ↓reduceIte] at h
    exact ⟨eq_nil_of_isEmpty_handles hempty, (Except.ok.inj h).symm⟩
  | false =>
    obtain ⟨ids, hids, rfl⟩ := order_ok h hempty
    obtain ⟨P, hP, hids⟩ := bind_eq_ok_iff.1 hids
    have hperm := perm_moduleOrder hP hids
    exact .inr ⟨P, ids, graph_entryPool o entries, hP, perm_placement hP, hids, hperm,
      reports_report hperm⟩

end Reports

/-- The plugin and its server share a handle, and the client is given a second one. -/
def shared : List (Module × String) :=
  [(client, "client"), (plugin [], "feature"), (server, "feature"), (client, "again")]

/-- The shared handle is reported for the plugin, and the second one of the client is not. -/
theorem reports_of_order_shared :
    contractless.order shared = .ok ["feature", "client"] ∧
      ∃ P ids, placement (contractless.entryPool shared) = .ok P ∧
        P.order.Perm (contractless.entryPool shared).graph.ids ∧
        ids.Perm (contractless.entryPool shared).graph.ids ∧
        Reports shared (contractless.entryPool shared).graph ids ["feature", "client"] := by
  have horder : contractless.order shared = .ok ["feature", "client"] := by decide +kernel
  refine ⟨horder, ?_⟩
  rcases reports_of_order horder with ⟨hnil, -⟩ | ⟨P, ids, -, hP, hperm, -, hperm', hreports⟩
  · exact absurd hnil (List.cons_ne_nil _ _)
  · exact ⟨P, ids, hP, hperm, hperm', hreports⟩

end Orderer

end StartOrder
