import Mathlib.Data.List.Perm.Subperm
import StartOrder.Proofs.Order.Report
import StartOrder.Proofs.Wiring.Nesting

/-!
# How deep placements are nested

Placing a module places its providers, and these place theirs. Here the modules that are being
placed are a part of the state, and placements may be nested up to a limit only. As with searches,
the path is the same before and after each placement, although in between modules may be placed
again that have been placed before. A module without known providers places nothing, so the path
only ever holds modules that have some, and one more.

So neither searches nor placements come to a limit of the number of modules and one more. In this
sense resolving and ordering return for every input.

## Main definitions

* `Placement.Placing`: a pass with the modules that are being placed
* `Placement.placeWithin`, `Placement.mergeWithin`: placements that are nested up to a limit
* `Placement.Keyed g p`: providers are known of modules of `g` only, once of each
* `Orderer.orderWithin`: the start order by searches and placements that are nested up to a limit

## Main results

* `Placement.placeWithin_eq`: the limit is not reached, and the path is kept
* `Orderer.orderWithin_eq`: ordering within a limit
* `Orderer.nesting_bounded`: how deep searches and placements are nested
-/

namespace StartOrder

open Wiring (Entry Resolution Session Pool)

namespace Placement

variable {providers : List (ModuleId × List ModuleId)} {path : List ModuleId} {id : ModuleId}
  {limit : Nat} {P : Placement} {e : Entry} {res : Resolution} {g : Graph}

/-! ## Placements that keep the path -/

/-- The order while providers are placed, and the modules that are being placed. -/
structure Placing extends Pass where
  path : List ModuleId := []
deriving DecidableEq, Repr

/-- A pass while the modules of a path are being placed. -/
def Pass.along (s : Pass) (path : List ModuleId) : Placing :=
  { s with path }

/-- A module is on the path from here on. -/
def Placing.enter (s : Placing) (id : ModuleId) : Placing :=
  { s with path := id :: s.path }

/-- A module is taken off the path, and counts as placed. -/
def Placing.leave (s : Placing) (id : ModuleId) : Placing :=
  { s with path := s.path.erase id, checked := id :: s.checked }

theorem Placing.enter_along (s : Pass) (path : List ModuleId) (id : ModuleId) :
    (s.along path).enter id = s.along (id :: path) := rfl

/-- What is taken off the path was put on it last. -/
theorem Placing.leave_along (s : Pass) (path : List ModuleId) (id : ModuleId) :
    (s.along (id :: path)).leave id =
      ({ s with checked := id :: s.checked } : Pass).along path := by
  simp [leave, Pass.along]

/-- Put one provider before a module, and enter it unless its own providers have been placed.
Without a result placements would be nested too deep. -/
def placeOneWithin (enter : Placing → ModuleId → Option Placing) (requirer : ModuleId) (s : Placing)
    (p : ModuleId) : Option Placing :=
  match moveBefore? s.order requirer p with
  | none => some s
  | some (order, moved) =>
    let s : Placing :=
      { s with order, checked := if moved then s.checked.filter (· ≠ p) else s.checked }
    if p ∈ s.checked then some s else enter s p

/-- Put every known provider of a module before it, and so on for the providers, by placements that
are nested up to a limit. The module is on the path until its providers have been placed. -/
def placeWithin (providers : List (ModuleId × List ModuleId)) :
    (limit : Nat) → Placing → ModuleId → Option Placing
  | 0, _, _ => none
  | limit + 1, s, id =>
    if id ∈ s.path then some s
    else do
      let t ← (providersOf providers id).foldlM (placeOneWithin (placeWithin providers limit) id)
        (s.enter id)
      some (t.leave id)

/-- Add an entry by placements that are nested up to a limit. -/
def addWithin (limit : Nat) (p : Placement) (e : Entry) : Option Placement := do
  let order := if e.1 ∈ p.order then p.order else p.order ++ [e.1]
  let providers := record p.providers e
  let t ← placeWithin providers limit { order } e.1
  some { order := t.order, providers }

/-- Add the entries of a resolution by placements that are nested up to a limit. -/
def mergeWithin (limit : Nat) (p : Placement) (r : Resolution) : Option Placement :=
  r.foldlM (addWithin limit) p

/-! ## The path is kept -/

/-- What placements that keep the path come to is what placements come to along the path. -/
def Carries (enter' : Placing → ModuleId → Option Placing) (path : List ModuleId)
    (enter : Pass → ModuleId → Pass) : Prop :=
  ∀ s p, enter' (s.along path) p = some ((enter s p).along path)

namespace Carries

variable {enter : Pass → ModuleId → Pass} {enter' : Placing → ModuleId → Option Placing}

theorem placeOneWithin (h : Carries enter' path enter) (id : ModuleId) :
    Carries (placeOneWithin enter' id) path (placeOne enter id) := by
  intro s p
  unfold Placement.placeOneWithin placeOne
  dsimp only [Pass.along]
  rcases moveBefore? s.order id p with _ | ⟨order, moved⟩
  · rfl
  · dsimp only
    generalize (if moved then s.checked.filter (· ≠ p) else s.checked) = checked
    split
    · rfl
    · exact h ⟨order, checked⟩ p

theorem foldlM_placeOneWithin (h : Carries enter' path enter) (s : Pass) (ps : List ModuleId) :
    ps.foldlM (Placement.placeOneWithin enter' id) (s.along path) =
      some ((placeEach enter id s ps).along path) := by
  induction ps generalizing s with
  | nil => rfl
  | cons p ps ih =>
    rw [List.foldlM_cons, h.placeOneWithin id s p, placeEach_cons]
    exact ih (placeOne enter id s p)

end Carries

/-- **Nested placements never come to the limit** when it exceeds the number of modules that have
known providers and are not on the path, and the path is the same afterwards. -/
theorem placeWithin_eq (hlimit : (unentered providers path).length < limit) :
    Carries (placeWithin providers limit) path (place providers path) := by
  induction limit generalizing path with
  | zero => exact absurd hlimit (Nat.not_lt_zero _)
  | succ limit ih =>
    intro s id
    unfold placeWithin place
    by_cases hid : id ∈ path
    · rw [dif_pos hid]
      exact if_pos hid
    · rw [dif_neg hid]
      refine (if_neg hid).trans ?_
      split
      · next hnone =>
        have hknown : providersOf providers id = [] := by rw [providersOf, hnone, Option.getD_none]
        rw [hknown, List.foldlM_nil, pure_bind, Placing.enter_along, Placing.leave_along]
      · next ps hps =>
        have hknown : providersOf providers id = ps := by rw [providersOf, hps, Option.getD_some]
        -- One module more is on the path, so that one less can be entered.
        have hless := unentered_cons_lt (mem_map_fst_of_lookup hps) hid
        have hinner := ih (Nat.lt_of_lt_of_le hless (Nat.le_of_lt_succ hlimit))
        rw [hknown, Placing.enter_along, hinner.foldlM_placeOneWithin s ps]
        exact congrArg some (Placing.leave_along _ path id)

/-- The limit cannot be lower: the last module that is entered has no known providers. -/
example :
    placeWithin [(0, [1])] 1 { order := [0] } 0 = none ∧
      placeWithin [(0, [1])] 2 { order := [0] } 0 =
        some { order := [1, 0], checked := [0, 1] } := by
  decide +kernel

/-! ## Adding entries within a limit -/

/-- Providers are known of modules of a graph only, once of each. -/
structure Keyed (g : Graph) (p : Placement) : Prop where
  nodup : (p.providers.map Prod.fst).Nodup
  subset : p.providers.map Prod.fst ⊆ g.ids

theorem map_fst_record (providers : List (ModuleId × List ModuleId)) (e : Entry) :
    (record providers e).map Prod.fst =
      if e.1 ∈ providers.map Prod.fst then providers.map Prod.fst
      else providers.map Prod.fst ++ [e.1] := by
  unfold record
  cases hlookup : providers.lookup e.1 with
  | none =>
    have hnew : e.1 ∉ providers.map Prod.fst := by
      intro hmem
      obtain ⟨p, hp, heq⟩ := List.mem_map.1 hmem
      exact absurd heq.symm (by simpa using List.lookup_eq_none_iff.1 hlookup p hp)
    rw [if_neg hnew, List.map_append, List.map_singleton]
  | some known =>
    rw [if_pos (mem_map_fst_of_lookup hlookup), List.map_map]
    refine List.map_congr_left fun p _ => ?_
    rw [Function.comp_apply]
    split
    · next hp => exact hp.symm
    · rfl

namespace Keyed

theorem length_le (h : Keyed g P) : P.providers.length ≤ g.size := by
  have hle := (List.Nodup.subperm h.nodup h.subset).length_le
  rwa [List.length_map, Graph.ids, List.length_range] at hle

theorem add (h : Keyed g P) (he : e.1 ∈ g.ids) : Keyed g (Placement.add P e) := by
  have hkeys := map_fst_record P.providers e
  by_cases hmem : e.1 ∈ P.providers.map Prod.fst
  · rw [if_pos hmem] at hkeys
    exact ⟨hkeys ▸ h.nodup, hkeys ▸ h.subset⟩
  · rw [if_neg hmem] at hkeys
    refine ⟨?_, ?_⟩
    · change ((record P.providers e).map Prod.fst).Nodup
      rw [hkeys]
      exact (List.perm_append_singleton _ _).nodup_iff.2 (List.nodup_cons.2 ⟨hmem, h.nodup⟩)
    · change (record P.providers e).map Prod.fst ⊆ g.ids
      rw [hkeys]
      exact List.append_subset.2 ⟨h.subset, List.cons_subset.2 ⟨he, List.nil_subset _⟩⟩

theorem addWithin_eq (h : Keyed g P) (hlimit : g.size < limit) (he : e.1 ∈ g.ids) :
    addWithin limit P e = some (Placement.add P e) := by
  have hkeys : (record P.providers e).length < limit :=
    Nat.lt_of_le_of_lt (h.add he).length_le hlimit
  have hunentered : (unentered (record P.providers e) []).length < limit := by
    simpa [unentered] using hkeys
  have hplace := placeWithin_eq hunentered
    ⟨if e.1 ∈ P.order then P.order else P.order ++ [e.1], []⟩ e.1
  unfold addWithin
  dsimp only [Pass.along] at hplace ⊢
  rw [hplace]
  rfl

/-- Entries of modules of the graph are added without coming to the limit. -/
theorem mergeWithin_eq (h : Keyed g P) (hlimit : g.size < limit) (hres : ∀ e ∈ res, e.1 ∈ g.ids) :
    P.mergeWithin limit res = some (P.merge res) ∧ Keyed g (P.merge res) := by
  induction res generalizing P with
  | nil => exact ⟨rfl, h⟩
  | cons e res ih =>
    rw [List.forall_mem_cons] at hres
    rw [mergeWithin, List.foldlM_cons, h.addWithin_eq hlimit hres.1]
    exact ih (h.add hres.1) hres.2

end Keyed

end Placement

/-! ## Ordering within a limit -/

namespace Orderer

variable {α : Type} {o : Orderer} {entries : List (Module × α)} {pool : Pool} {P : Placement}
  {limit : Nat}

/-- Resolve and place one module unless it has a place, by searches and placements that are nested
up to a limit. -/
def placeModuleWithin (limit : Nat) (pool : Pool) (p : Placement) (id : ModuleId) :
    Except (Option Error) Placement :=
  if id ∈ p.order then .ok p
  else do
    let res ← Wiring.resolveWithin pool limit [id]
    (p.mergeWithin limit res).elim (.error none) .ok

/-- The handles of modules in start order, by searches and placements that are nested up to a
limit. -/
def orderWithin [BEq α] (o : Orderer) (limit : Nat) (entries : List (Module × α)) :
    Except (Option Error) (List α) := do
  let (g, handles) := entryGraph entries
  if handles.isEmpty then return []
  for m in g.modules do
    let _ ← (Fragment.hostRequirement m).mapError some
  let pool := o.pool o.launchApi g
  let p ← pool.graph.ids.foldlM (placeModuleWithin limit pool) {}
  return report handles (← (Fragment.promoteAll pool.graph p.order).mapError some)

theorem placeModuleWithin_eq (hlimit : pool.graph.size < limit) (hP : P.Keyed pool.graph)
    (id : ModuleId) :
    placeModuleWithin limit pool P id = (placeModule pool P id).mapError some ∧
      ∀ Q, placeModule pool P id = .ok Q → Q.Keyed pool.graph := by
  unfold placeModuleWithin placeModule
  split
  · refine ⟨rfl, fun Q hQ => ?_⟩
    obtain rfl := Except.ok.inj hQ
    exact hP
  · rw [Wiring.resolveWithin_eq hlimit]
    cases hres : Wiring.resolve pool [id] with
    | error e =>
      refine ⟨rfl, fun Q hQ => ?_⟩
      cases hQ
    | ok res =>
      -- What is resolved are modules of the graph, so that providers are known of these only.
      have hids : ∀ e ∈ res, e.1 ∈ pool.graph.ids := fun e he =>
        mem_ids_of_members hres (Wiring.mem_members.2 ⟨e.2, he⟩)
      obtain ⟨hmerge, hkeyed⟩ := hP.mergeWithin_eq hlimit hids
      refine ⟨?_, fun Q hQ => ?_⟩
      · change (P.mergeWithin limit res).elim (Except.error none) Except.ok = .ok (P.merge res)
        rw [hmerge]
        rfl
      · obtain rfl := Except.ok.inj hQ
        exact hkeyed

/-- Modules are placed without coming to the limit. -/
theorem foldlM_placeModuleWithin (hlimit : pool.graph.size < limit) (hP : P.Keyed pool.graph)
    (ids : List ModuleId) :
    ids.foldlM (placeModuleWithin limit pool) P =
      (ids.foldlM (placeModule pool) P).mapError some := by
  induction ids generalizing P with
  | nil => rfl
  | cons id ids ih =>
    obtain ⟨hstep, hkeyed⟩ := placeModuleWithin_eq hlimit hP id
    rw [List.foldlM_cons, List.foldlM_cons, mapError_bind, hstep]
    cases hplace : placeModule pool P id with
    | error e => rfl
    | ok Q => exact ih (hkeyed Q hplace)

/-- **Ordering never comes to a limit** that exceeds the number of modules. -/
theorem orderWithin_eq [BEq α] (hlimit : (o.entryPool entries).graph.size < limit) :
    o.orderWithin limit entries = (o.order entries).mapError some := by
  have hempty : Placement.Keyed (o.entryPool entries).graph {} :=
    ⟨List.nodup_nil, List.nil_subset _⟩
  have hplaced := foldlM_placeModuleWithin hlimit hempty (o.entryPool entries).graph.ids
  unfold entryPool at hplaced
  unfold orderWithin order orderWith
  dsimp only
  cases (entryGraph entries).2.isEmpty with
  | true => rfl
  | false =>
    simp only [Bool.false_eq_true, ↓reduceIte, mapError_bind, mapError_forIn, moduleOrder,
      placement, bind_assoc, hplaced]
    rfl

/-- **How deep searches and placements are nested.** A search is nested at most once more than
there are modules that are not in progress, and a placement at most once more than there are
modules that have known providers, whatever cycles there are. So resolving and ordering have the
results that they would have without a limit. -/
theorem nesting_bounded [BEq α] :
    (∀ (pool : Pool) (A : List ModuleId) (s : Session) (id : ModuleId),
        Wiring.searchWithin pool ((Wiring.unentered pool.graph A).length + 1) (s.during A) id =
          Wiring.carrying A (Wiring.resolveModule pool A s id)) ∧
      (∀ (pool : Pool) (ids : List ModuleId),
        Wiring.resolveWithin pool (pool.graph.size + 1) ids =
          (Wiring.resolve pool ids).mapError some) ∧
      (∀ (providers : List (ModuleId × List ModuleId)) (path : List ModuleId)
          (s : Placement.Pass) (id : ModuleId),
        Placement.placeWithin providers (providers.length + 1) (s.along path) id =
          some ((Placement.place providers path s id).along path)) ∧
      ∀ (o : Orderer) (entries : List (Module × α)),
        o.orderWithin ((o.entryPool entries).graph.size + 1) entries =
          (o.order entries).mapError some := by
  refine ⟨fun pool A => ?_, fun pool => ?_, fun providers path => ?_, fun o entries => ?_⟩
  · exact Wiring.searchWithin_eq (Nat.lt_succ_self _)
  · exact Wiring.resolveWithin_eq (Nat.lt_succ_self _)
  · refine Placement.placeWithin_eq (Nat.lt_succ_of_le ?_)
    exact (List.length_filter_le _ _).trans (List.length_map _).le
  · exact orderWithin_eq (Nat.lt_succ_self _)

end Orderer

end StartOrder
