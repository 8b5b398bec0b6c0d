import Mathlib.Data.List.Sort
import StartOrder.Proofs.Order.Leaves

/-!
# Entries that are in order already

When all wires between entries lead back to earlier ones, a start order leaves the entries as they
are. The resolutions overlap, each lists its modules in an order of its own, and the stand-ins are
put in between at any moment, but none of this moves an entry: a provider that is an entry has been
placed before what requires it, and modules without requirements never bring an entry forward.

Entries with the same module count as one, for which the first of them stands. The others change
neither the graph nor the handles.

## Main definitions

* `Orderer.introductions entries`: the entries whose modules have not been given before
* `Placement.Ascending n o`: of the modules below `n`, each comes behind all lower ones

## Main results

* `Orderer.entryGraph_introductions`: entries that give a module again do not count
* `Orderer.get?_entryPool_of_introductions`: the places of the entries' modules
* `Placement.place_ascending`: placing a module moves no module that comes behind its providers
* `Orderer.ascending_placement`: modules that are in order stay as they are
* `Orderer.order_eq_of_backward`: a start order of entries that are in order already
-/

namespace StartOrder

/-! ## Repetitions -/

section Repetitions

variable {α : Type}

/-- An element stays unless one that has stayed makes it a repetition. -/
theorem eraseDupsBy_eq_foldl (r : α → α → Bool) (as : List α) : as.eraseDupsBy r =
    as.foldl (fun bs a => if bs.any (r a) then bs else bs ++ [a]) [] := by
  suffices h : ∀ bs, List.eraseDupsBy.loop r as bs =
      as.foldl (fun bs a => if bs.any (r a) then bs else bs ++ [a]) bs.reverse from h []
  induction as with
  | nil => exact fun _ => rfl
  | cons a as ih =>
    intro bs
    rw [List.eraseDupsBy.loop, List.foldl_cons, List.any_reverse]
    cases bs.any (r a) with
    | true => exact ih bs
    | false => simpa using ih (a :: bs)

theorem Orderer.report_eq_eraseDups [BEq α] (handles : List (ModuleId × α))
    (order : List ModuleId) :
    report handles order = (order.filterMap fun id => handles.lookup id).eraseDups := by
  rw [report, List.eraseDups, eraseDupsBy_eq_foldl]
  simp only [List.contains_eq_any_beq]

end Repetitions

/-! ## Placing providers -/

namespace Placement

open Wiring (Entry Resolution)

variable {n : Nat} {providers : List (ModuleId × List ModuleId)} {o : List ModuleId}
  {id p : ModuleId} {ps : List ModuleId} {enter : Pass → ModuleId → Pass} {s : Pass}
  {P : Placement} {e : Entry} {es : List Entry}

/-- The modules below `n` that have places come in ascending order, and none is left out below
one of them. -/
structure Ascending (n : Nat) (o : List ModuleId) : Prop where
  nodup : o.Nodup
  precedes : ∀ x y, x < y → y < n → y ∈ o → Precedes o x y

theorem ascending_nil (n : Nat) : Ascending n [] where
  nodup := .nil
  precedes := fun _ _ _ _ h => by cases h

/-- Providers below `n` are known of higher modules below `n` only. -/
def Backward (n : Nat) (providers : List (ModuleId × List ModuleId)) : Prop :=
  ∀ m p, Known providers m p → p ≠ m ∧ (p < n → p < m ∧ m < n)

/-- What holds of all searches for the providers of a module: they keep the order. -/
def KeepsAscending (n : Nat) (enter : Pass → ModuleId → Pass) : Prop :=
  ∀ (s : Pass) (p : ModuleId), Ascending n s.order → Ascending n (enter s p).order

theorem KeepsAscending.placeOne (h : KeepsAscending n enter)
    (hp : p ≠ id ∧ (p < n → p < id ∧ id < n)) (hs : Ascending n s.order) :
    Ascending n (placeOne enter id s p).order := by
  generalize ht : Placement.placeOne enter id s p = t
  have hstep : PlacesOne enter id s p t := ht ▸ placesOne hp.1
  cases hstep with
  | absent | stays => exact hs
  | enters => exact h s p hs
  | @moves s' hput hback =>
    refine h s' p ⟨hput.nodup hs.nodup, fun x y hxy hyn hy => ?_⟩
    have hpn : ¬ p < n := by
      intro hpn
      obtain ⟨hlt, hid⟩ := hp.2 hpn
      have hmem : id ∈ s.order :=
        (hput.mem_iff.1 hput.precedes_target.mem_right).resolve_left hp.1.symm
      have hfirst := hs.precedes p id hlt hid hmem
      exact ((hback hfirst.mem_left).trans hs.nodup hfirst).ne hs.nodup rfl
    have hyp : y ≠ p := fun heq => hpn (heq ▸ hyn)
    have hxp : x ≠ p := fun heq => hpn (heq ▸ hxy.trans hyn)
    rw [hput.precedes_iff hxp hyp]
    exact hs.precedes x y hxy hyn ((hput.mem_iff.1 hy).resolve_left hyp)

theorem KeepsAscending.placeEach (h : KeepsAscending n enter)
    (hps : ∀ p ∈ ps, p ≠ id ∧ (p < n → p < id ∧ id < n)) (hs : Ascending n s.order) :
    Ascending n (placeEach enter id s ps).order := by
  induction ps generalizing s with
  | nil => exact hs
  | cons p ps ih =>
    rw [List.forall_mem_cons] at hps
    rw [placeEach_cons]
    exact ih hps.2 (h.placeOne hps.1 hs)

/-- **Placing a module moves no module that comes behind its providers.** -/
theorem place_ascending (hback : Backward n providers) (path : List ModuleId) :
    KeepsAscending n (place providers path) := by
  induction path using entering_induction providers with
  | step path ih =>
    intro s id hs
    unfold place
    split
    · exact hs
    · next hid =>
      split
      · exact hs
      · next ps hps =>
        refine (ih id (mem_map_fst_of_lookup hps) hid).placeEach (fun p hp => hback id p ?_) hs
        rwa [Known, providersOf, hps]

theorem Backward.of_foldl_add (h : Backward n (es.foldl add P).providers) :
    Backward n P.providers :=
  fun m p hp => h m p (known_foldl_add.2 (.inl hp))

theorem Backward.irreflexive (h : Backward n providers) : Irreflexive providers :=
  fun m hm => (h m m hm).1 rfl

theorem Ascending.snoc (h : Ascending n o) (hid : id ∉ o) (hlow : id < n → ∀ x < id, x ∈ o) :
    Ascending n (o ++ [id]) where
  nodup := (List.perm_append_singleton _ _).nodup_iff.2 (List.nodup_cons.2 ⟨hid, h.nodup⟩)
  precedes := by
    intro x y hxy hyn hy
    rw [precedes_snoc]
    rcases List.mem_append.1 hy with hy | hy
    · exact .inl (h.precedes x y hxy hyn hy)
    · obtain rfl := List.mem_singleton.1 hy
      exact .inr ⟨hlow hyn x hxy, rfl⟩

/-- The module of an entry goes to the end when all lower modules have places. -/
theorem add_ascending (h : Ascending n P.order) (hback : Backward n (add P e).providers)
    (hlow : e.1 < n → ∀ x < e.1, x ∈ P.order) : Ascending n (add P e).order := by
  refine place_ascending hback [] ⟨_, []⟩ e.1 ?_
  dsimp only
  split
  · exact h
  · next hnew => exact h.snoc hnew hlow

/-- Entries for modules whose lower ones have places keep the order. -/
theorem foldl_add_ascending (h : Ascending n P.order)
    (hback : Backward n (es.foldl add P).providers)
    (hlow : ∀ e ∈ es, e.1 < n → ∀ x < e.1, x ∈ P.order) :
    Ascending n (es.foldl add P).order := by
  induction es generalizing P with
  | nil => exact h
  | cons e es ih =>
    rw [List.forall_mem_cons] at hlow
    rw [List.foldl_cons] at hback ⊢
    obtain ⟨o, -, hsub, -, -, hmoved⟩ :=
      add_moved (e := e) h.nodup hback.of_foldl_add.irreflexive
    refine ih (add_ascending h hback.of_foldl_add hlow.1) hback ?_
    intro f hf hfn x hx
    exact hmoved.subset (hsub.subset (hlow.2 f hf hfn x hx))

/-- Modules below `n` that come in ascending order are the numbers below `n`. -/
theorem Ascending.filter_eq (h : Ascending n o) (hall : ∀ x < n, x ∈ o) :
    o.filter (· < n) = List.range n := by
  have hpair : (o.filter (· < n)).Pairwise (· < ·) := by
    rw [List.pairwise_iff_forall_sublist]
    intro x y hxy
    have hx : x < n := by simpa using (List.mem_filter.1 (hxy.subset (by simp))).2
    have hfirst : Precedes o x y := List.Sublist.trans hxy List.filter_sublist
    rcases Nat.lt_trichotomy x y with hlt | rfl | hlt
    · exact hlt
    · exact absurd rfl (hfirst.ne h.nodup)
    · have hback := h.precedes y x hlt hx hfirst.mem_left
      exact absurd rfl ((hback.trans h.nodup hfirst).ne h.nodup)
  refine List.Perm.eq_of_pairwise (fun _ _ _ _ hxy hyx => absurd hxy (Nat.lt_asymm hyx)) hpair
    List.pairwise_lt_range ?_
  refine (List.perm_ext_iff_of_nodup (h.nodup.filter _) List.nodup_range).2 fun x => ?_
  rw [List.mem_filter, decide_eq_true_iff, List.mem_range]
  exact ⟨fun hx => hx.2, fun hx => ⟨hall x hx, hx⟩⟩

end Placement

namespace Orderer

open Wiring (Pool Wire Entry Resolution Members Leads)

variable {α : Type} {o : Orderer} {entries : List (Module × α)} {pool : Pool} {P : Placement}
  {ids : List ModuleId} {rs : List Resolution} {n id x : ModuleId} {res : Resolution} {m : Module}

/-! ## The order of modules -/

/-- A wire of a resolution leads back to the module or to a known provider. -/
theorem known_of_leads (hres : Wiring.resolve pool ids = .ok res) {m p : ModuleId}
    (h : Leads res m p) : p = m ∨ Placement.Known (res.foldl Placement.add P).providers m p := by
  obtain ⟨ws, hws, w, hw, rfl⟩ := h
  obtain ⟨_, -, hwired⟩ := Wiring.wired_core hres hws
  by_cases heq : w.provider = m
  · exact .inl heq
  · refine .inr (Placement.known_foldl_add.2 (.inr ⟨_, hws, rfl, w, hw, ?_, rfl⟩))
    rw [Wire.isSelf, (hwired.wire_of_mem hw).1]
    exact beq_false_of_ne (Ne.symm heq)

/-- No module below `n` that takes part in the resolution of another is higher. -/
theorem le_of_mem_members (hres : Wiring.resolve pool [id] = .ok res)
    (hback : Placement.Backward n (res.foldl Placement.add P).providers) (hx : x ∈ Members res)
    (hxn : x < n) : x ≤ id := by
  obtain ⟨-, -, hreach⟩ := Wiring.resolve_correct (S := ∅) (fun _ h => h.elim) hres
  obtain ⟨_, hid, hreached⟩ := hreach x hx
  obtain rfl := List.mem_singleton.1 hid
  clear hx
  -- Places below `n` only get higher when the wires are followed back, up to the module itself.
  induction hreached with
  | refl => exact Nat.le_refl _
  | tail _ hlead ih =>
    rcases known_of_leads (P := P) hres hlead with rfl | hknown
    · exact ih hxn
    · obtain ⟨hlt, hyn⟩ := (hback _ _ hknown).2 hxn
      exact Nat.le_trans (Nat.le_of_lt hlt) (ih hyn)

/-- Resolving and placing modules one after the other keeps the order, when no lower module has been
passed over. -/
theorem ascending_resolutionsFrom (h : resolutionsFrom pool P ids = .ok rs)
    (hP : Placement.Ascending n P.order)
    (hback : Placement.Backward n (rs.flatten.foldl Placement.add P).providers)
    (hids : ids.Pairwise (· < ·)) (hlow : ∀ id ∈ ids, ∀ x < id, x ∈ P.order ∨ x ∈ ids) :
    Placement.Ascending n (rs.flatten.foldl Placement.add P).order := by
  induction ids generalizing P rs with
  | nil =>
    obtain rfl := Except.ok.inj h
    exact hP
  | cons id ids ih =>
    rw [List.pairwise_cons] at hids
    rw [List.forall_mem_cons] at hlow
    have hbelow : ∀ x < id, x ∈ P.order := by
      intro x hx
      rcases hlow.1 x hx with hx' | hx'
      · exact hx'
      · rcases List.mem_cons.1 hx' with rfl | hx'
        · exact absurd hx (Nat.lt_irrefl x)
        · exact absurd (hids.1 x hx') (Nat.lt_asymm hx)
    -- Once the first module has a place, none is passed over for the others.
    have hrest {Q : Placement} (hkeep : ∀ x ∈ P.order, x ∈ Q.order) (hid : id ∈ Q.order) :
        ∀ y ∈ ids, ∀ x < y, x ∈ Q.order ∨ x ∈ ids := by
      intro y hy x hx
      rcases hlow.2 y hy x hx with hx | hx
      · exact .inl (hkeep x hx)
      · rcases List.mem_cons.1 hx with rfl | hx
        · exact .inl hid
        · exact .inr hx
    unfold resolutionsFrom at h
    split at h
    · next hid => exact ih h hP hback hids.2 (hrest (fun _ hx => hx) hid)
    · obtain ⟨res, hres, h⟩ := bind_eq_ok_iff.1 h
      obtain ⟨rs, hrs, h⟩ := bind_eq_ok_iff.1 h
      obtain rfl := Except.ok.inj h
      rw [List.flatten_cons, List.foldl_append] at hback ⊢
      have hback' := hback.of_foldl_add
      obtain ⟨hkeep, hentries, -⟩ := Placement.mem_foldl_add hP.nodup hback'.irreflexive
      have hid : id ∈ (res.foldl Placement.add P).order := by
        obtain ⟨-, hmandatory, -⟩ := Wiring.resolve_correct (S := ∅) (fun _ h => h.elim) hres
        obtain ⟨ws, hws⟩ := Wiring.mem_members.1 (hmandatory id (List.mem_singleton.2 rfl))
        exact hentries _ hws
      have hmerged : Placement.Ascending n (res.foldl Placement.add P).order := by
        refine Placement.foldl_add_ascending hP hback' ?_
        intro e he hen x hx
        have hmem : e.1 ∈ Members res := Wiring.mem_members.2 ⟨e.2, he⟩
        exact hbelow x (Nat.lt_of_lt_of_le hx (le_of_mem_members hres hback' hmem hen))
      exact ih hrs hmerged hback hids.2 (hrest hkeep hid)

/-- **Modules that are in order stay as they are**, before fragments are promoted. -/
theorem ascending_placement (h : placement pool = .ok P)
    (hback : ∀ m p, Needs pool m p → p < n → p < m ∧ m < n) : Placement.Ascending n P.order := by
  rw [placement, foldlM_placeModule] at h
  obtain ⟨rs, hrs, rfl⟩ := map_eq_ok_iff.1 h
  have hknown : Placement.Backward n (rs.flatten.foldl Placement.add {}).providers := by
    intro m p hp
    have hneeds : Needs pool m p := (known_iff_needs hrs).1 hp
    refine ⟨?_, hback m p hneeds⟩
    obtain ⟨w, -, -, -, hne⟩ := hneeds
    exact hne
  refine ascending_resolutionsFrom hrs (Placement.ascending_nil n) hknown List.pairwise_lt_range ?_
  intro id hid x hx
  exact .inr (Graph.mem_ids.2 (Nat.lt_trans hx (Graph.mem_ids.1 hid)))

/-- Without fragments, modules that are in order stay as they are to the end. -/
theorem ascending_moduleOrder (h : moduleOrder pool = .ok ids)
    (hplain : ∀ id, Fragment.Plain pool.graph id)
    (hback : ∀ m p, Needs pool m p → p < n → p < m ∧ m < n) : Placement.Ascending n ids := by
  obtain ⟨P, hP, h⟩ := bind_eq_ok_iff.1 h
  obtain ⟨hperm, hiff⟩ := Fragment.promoteAll_spec h
  have hascending := ascending_placement hP hback
  refine ⟨hperm.nodup_iff.2 hascending.nodup, fun x y hxy hyn hy => ?_⟩
  exact (hiff x y (hplain x) (hplain y)).2 (hascending.precedes x y hxy hyn (hperm.mem_iff.1 hy))

/-! ## Entries with the same module -/

/-- The entries whose modules have not been given before. -/
def introductions (entries : List (Module × α)) : List (Module × α) :=
  entries.eraseDupsBy fun a b => a.1.unowned == b.1.unowned

theorem introductions_snoc (entries : List (Module × α)) (e : Module × α) :
    introductions (entries ++ [e]) =
      if (introductions entries).any fun a => e.1.unowned == a.1.unowned
      then introductions entries else introductions entries ++ [e] := by
  simp only [introductions, eraseDupsBy_eq_foldl, List.foldl_append, List.foldl_cons,
    List.foldl_nil]

theorem pairwise_introductions (entries : List (Module × α)) :
    (introductions entries).Pairwise fun a b => a.1.unowned ≠ b.1.unowned := by
  induction entries using List.reverseRecOn with
  | nil => exact .nil
  | append_singleton entries e ih =>
    rw [introductions_snoc]
    split
    · exact ih
    · next hnew =>
      rw [List.any_eq_true, not_exists] at hnew
      refine List.pairwise_append.2 ⟨ih, List.pairwise_singleton _ _, fun a ha b hb => ?_⟩
      rw [List.mem_singleton.1 hb]
      exact fun heq => hnew a ⟨ha, beq_iff_eq.2 heq.symm⟩

/-- **Entries that give a module again do not count**: they change neither the graph nor the
handles. -/
theorem entryGraph_introductions (entries : List (Module × α)) :
    entryGraph (introductions entries) = entryGraph entries := by
  induction entries using List.reverseRecOn with
  | nil => rfl
  | append_singleton entries e ih =>
    rw [entryGraph_snoc, introductions_snoc, ← ih]
    split
    · next hold =>
      obtain ⟨a, ha, hsame⟩ := List.any_eq_true.1 hold
      obtain ⟨id, n, hid, hn, hn'⟩ := exists_place ha
      have hfind := (Graph.find?_congr (eq_of_beq hsame)).trans hid
      have hhandle : ((entryGraph (introductions entries)).2.lookup id).isSome = true := by
        rw [lookup_entryGraph, hn, Option.bind_some]
        exact isSome_firstHandle ha hn'.symm
      rw [Graph.insert_of_find?_some hfind, if_pos hhandle]
    · exact entryGraph_snoc _ e

/-- The module of an entry lies at the position at which it is introduced. -/
theorem get?_entryPool_of_introductions {e : Module × α}
    (he : (introductions entries)[id]? = some e) :
    (o.entryPool entries).graph.get? id = some (e.1.ownedBy id) := by
  have hget := get?_of_getElem? (pairwise_introductions entries) he
  rw [entryGraph_introductions] at hget
  have hlt : id < (entryGraph entries).1.size := (List.getElem?_eq_some_iff.1 hget).1
  exact (get?_pool o o.launchApi hlt).trans hget

/-- Behind the modules of entries there are the stand-ins only. -/
theorem get?_entryPool (hn : (o.entryPool entries).graph.get? id = some m) :
    (∃ e, (introductions entries)[id]? = some e ∧ m = e.1.ownedBy id) ∨
      m = o.launchApi.ownedBy id ∨ m = o.framework.ownedBy id := by
  cases hid : (introductions entries)[id]? with
  | some e =>
    rw [get?_entryPool_of_introductions hid, Option.some_inj] at hn
    exact .inl ⟨e, rfl, hn.symm⟩
  | none =>
    have hlookup := lookup_entryPool o entries id
    rw [hn, Option.bind_some, ← entryGraph_introductions,
      entryGraph_eq (pairwise_introductions entries), lookup_mapIdx, hid] at hlookup
    obtain ⟨m', hm', rfl⟩ := holdsOf_pool o o.launchApi entries id _ hn
    obtain rfl | rfl | ⟨e, he, rfl⟩ :
        m' = o.framework ∨ m' = o.launchApi ∨ ∃ e ∈ entries, e.1 = m' := by
      rwa [List.mem_cons, List.mem_cons, List.mem_map] at hm'
    · exact .inr (.inr rfl)
    · exact .inr (.inl rfl)
    · have hsome := isSome_firstHandle he (Module.unowned_ownedBy e.1 id).symm
      rw [← hlookup] at hsome
      cases hsome

/-- The handles of entries at all their positions, in order. -/
theorem filterMap_range_handles (entries : List (Module × α)) :
    (List.range entries.length).filterMap (fun id => (entries[id]?).map Prod.snd) =
      entries.map Prod.snd := by
  induction entries using List.reverseRecOn with
  | nil => rfl
  | append_singleton entries e ih =>
    have hold : ∀ id ∈ List.range entries.length,
        ((entries ++ [e])[id]?).map Prod.snd = (entries[id]?).map Prod.snd := by
      intro id hid
      rw [List.getElem?_append_left (List.mem_range.1 hid)]
    rw [List.length_append, List.length_singleton, List.range_succ, List.filterMap_append,
      List.filterMap_congr hold, ih]
    simp

/-- Only the modules of entries are reported. -/
theorem filterMap_handles (entries : List (Module × α)) {ids : List ModuleId}
    (hids : ids.filter (· < entries.length) = List.range entries.length) :
    (ids.filterMap fun id => (entries[id]?).map Prod.snd) = entries.map Prod.snd := by
  rw [← filterMap_range_handles, ← hids, List.filterMap_filter]
  refine List.filterMap_congr fun id _ => ?_
  by_cases hid : id < entries.length <;> simp [hid]

/-- The stand-ins need no other modules, so that all wires to entries come from higher places. -/
theorem needs_backward (hlaunch : o.launchApi.requirements = [])
    (hframework : o.framework.requirements = [])
    (hback : ∀ i < (introductions entries).length, ∀ j < (introductions entries).length,
      Needs (o.entryPool entries) i j → j < i) {i j : ModuleId}
    (hneeds : Needs (o.entryPool entries) i j) (hj : j < (introductions entries).length) :
    j < i ∧ i < (introductions entries).length := by
  obtain ⟨m, hm, hne⟩ := requirements_ne_nil_of_needs hneeds
  rcases get?_entryPool hm with ⟨e, he, -⟩ | rfl | rfl
  · have hi := (List.getElem?_eq_some_iff.1 he).1
    exact ⟨hback i hi j hj hneeds, hi⟩
  · exact absurd (by simp [Module.ownedBy, hlaunch]) hne
  · exact absurd (by simp [Module.ownedBy, hframework]) hne

theorem plain_entryPool (hplain : ∀ e ∈ entries, e.1.hostRequirements = [])
    (hlaunch : o.launchApi.requirements = []) (hframework : o.framework.requirements = [])
    (id : ModuleId) : Fragment.Plain (o.entryPool entries).graph id := by
  intro n hn
  obtain ⟨m, hm, rfl⟩ := holdsOf_pool o o.launchApi entries id n hn
  have hnone : ∀ m ∈ o.framework :: o.launchApi :: entries.map Prod.fst,
      m.hostRequirements = [] := by
    rw [List.forall_mem_cons, List.forall_mem_cons, List.forall_mem_map]
    exact ⟨Module.hostRequirements_of_requirements_nil hframework,
      Module.hostRequirements_of_requirements_nil hlaunch, hplain⟩
  rw [Module.hostRequirements_ownedBy, hnone m hm, List.map_nil]

/-- **Entries that are in order already stay as they are**: when no module requires a host and all
wires between the modules of entries lead back to those that were introduced before, the handles
are reported in the order in which they were introduced. -/
theorem order_eq_of_backward [BEq α] {hs : List α}
    (hplain : ∀ e ∈ entries, e.1.hostRequirements = [])
    (hlaunch : o.launchApi.requirements = []) (hframework : o.framework.requirements = [])
    (hback : ∀ i < (introductions entries).length, ∀ j < (introductions entries).length,
      Needs (o.entryPool entries) i j → j < i)
    (h : o.order entries = .ok hs) : hs = ((introductions entries).map Prod.snd).eraseDups := by
  rcases exists_report_of_order h with ⟨rfl, rfl⟩ | ⟨ids, hids, hperm, rfl⟩
  · rfl
  · have hascending := ascending_moduleOrder hids (plain_entryPool hplain hlaunch hframework)
      fun i j hneeds hj => needs_backward hlaunch hframework hback hneeds hj
    have hall : ∀ id < (introductions entries).length, id ∈ ids := fun id hid =>
      hperm.mem_iff.2 (Wiring.mem_ids_of_get?
        (get?_entryPool_of_introductions (List.getElem?_eq_getElem hid)))
    rw [report_eq_eraseDups, ← entryGraph_introductions, entryGraph_eq (pairwise_introductions _)]
    simp only [lookup_mapIdx]
    rw [filterMap_handles _ (hascending.filter_eq hall)]

/-- A module is given a second time, and two modules share a handle. -/
def repeated : List (Module × String) :=
  [(linked "a" [], "x"), (linked "b" ["a"], "y"), (linked "a" [], "z"),
    (linked "c" ["a", "b"], "x")]

theorem order_eq_of_backward_repeated :
    introductions repeated =
        [(linked "a" [], "x"), (linked "b" ["a"], "y"), (linked "c" ["a", "b"], "x")] ∧
      Needs (contractless.entryPool repeated) 2 1 ∧
      contractless.order repeated = .ok ["x", "y"] := by
  have hneeds : Needs (contractless.entryPool repeated) 2 1 := by decide +kernel
  have hback : ∀ i < (introductions repeated).length, ∀ j < (introductions repeated).length,
      Needs (contractless.entryPool repeated) i j → j < i := by decide +kernel
  obtain ⟨hs, h⟩ : ∃ hs, contractless.order repeated = .ok hs :=
    exists_eq_ok_of_isOk (by decide +kernel)
  have heq : hs = ["x", "y"] :=
    order_eq_of_backward (by decide) rfl rfl hback h
  exact ⟨by decide +kernel, hneeds, heq ▸ h⟩

end Orderer

end StartOrder
