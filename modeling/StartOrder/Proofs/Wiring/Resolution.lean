import StartOrder.Proofs.Wiring.Search

/-!
# What a resolution is

A resolution holds together: every module has one entry, the wires of an entry satisfy the
requirements of its module in their order, all providers have entries of their own, and every
entry is reached from a module that was asked for. Modules can be resolved exactly when they
belong to a set of modules that support each other. The wires that a module gets are the same in
every resolution, because each of them leads to the first provider in the core.

## Main definitions

* `Follows rs ws`: the wires satisfy the requirements, in their order
* `Resolves pool ids res`: the resolution holds together and serves the modules `ids`

## Main results

* `exists_resolve_iff`: when modules can be resolved
* `resolves_of_resolve`: every resolution holds together
* `resolve_wires_eq`: the wires of a module do not depend on what else is resolved
-/

namespace StartOrder.Wiring

open Relation (ReflTransGen)

variable {pool : Pool} {S : Set ModuleId} {ids : List ModuleId} {s t : Session}
  {res res' : Resolution}

/-! ## Searches for several modules -/

/-- Searches that follow each other add entries that hang together. -/
theorem resolveFrom_correct (hS : ∀ id ∈ S, pool.Supports S id)
    (h : resolveFrom pool s ids = .ok t) (hs : s.Avoids S) :
    ∃ new, s.Extends t new ∧ Batch pool S (s.settled []) new ∧
      (∀ id ∈ ids, id ∈ t.settled []) ∧
      ∀ p ∈ Members new, ∃ id ∈ ids, ReflTransGen (Leads new) id p := by
  induction ids generalizing s with
  | nil =>
    obtain rfl := Except.ok.inj h
    exact ⟨[], .refl s, .nil, by simp, by simp⟩
  | cons id ids ih =>
    unfold resolveFrom at h
    split at h
    · cases h
    · cases h
    · next u hu =>
      have hcorrect := resolveModule_correct [] fun p hp => (hS p hp).mono Set.subset_union_left
      cases hcorrect hu hs with
      -- No module is in progress between two searches, so that only completed ones are settled.
      | @completed u new hus hext hbatch hid hreach =>
        obtain ⟨new', hext', hbatch', hids, hreach'⟩ := ih h hus
        rw [hext.settled_eq] at hbatch'
        refine ⟨new ++ new', hext.trans hext', hbatch.append hbatch', ?_, ?_⟩
        · intro p hp
          rcases List.mem_cons.1 hp with rfl | hp
          · exact hext'.settled_subset hid
          · exact hids p hp
        · intro p hp
          rw [members_append] at hp
          rcases hp with hp | hp
          · exact ⟨id, List.mem_cons_self, reaches_mono (List.subset_append_left _ _) (hreach p hp)⟩
          · obtain ⟨q, hq, hqp⟩ := hreach' p hp
            exact ⟨q, List.mem_cons_of_mem _ hq,
              reaches_mono (List.subset_append_right _ _) hqp⟩

/-- A resolution is made of entries that hang together by themselves. -/
theorem resolve_correct (hS : ∀ id ∈ S, pool.Supports S id)
    (h : resolve pool ids = .ok res) :
    Batch pool S ∅ res ∧ (∀ id ∈ ids, id ∈ Members res) ∧
      ∀ p ∈ Members res, ∃ id ∈ ids, ReflTransGen (Leads res) id p := by
  obtain ⟨t, ht, rfl⟩ := map_eq_ok_iff.1 h
  obtain ⟨new, hext, hbatch, hids, hreach⟩ := resolveFrom_correct hS ht fun p hp => by simp at hp
  have hempty : ({} : Session).settled [] = ∅ := by simp [Session.settled_empty]
  rw [hext.settled_eq, hempty, Set.empty_union] at hids
  rw [hempty] at hbatch
  rw [hext.resolved, List.nil_append]
  exact ⟨hbatch, hids, hreach⟩

/-- Wires lead to modules that have entries in the same resolution. -/
theorem provider_mem_members (h : resolve pool ids = .ok res) {e : Entry} (he : e ∈ res) {w : Wire}
    (hw : w ∈ e.2) : w.provider ∈ Members res := by
  obtain ⟨hbatch, -⟩ := resolve_correct (S := ∅) (fun _ h => h.elim) h
  obtain ⟨m, -, hwired⟩ := hbatch.wired e he
  simpa only [Set.empty_union] using hwired.provider_mem hw

/-- The modules of a resolution support each other. -/
theorem members_supports (h : resolve pool ids = .ok res) {id : ModuleId}
    (hid : id ∈ Members res) : pool.Supports (Members res) id := by
  obtain ⟨hbatch, -⟩ := resolve_correct (S := ∅) (fun _ h => h.elim) h
  obtain ⟨ws, hws⟩ := mem_members.1 hid
  obtain ⟨m, hm, hwired⟩ := hbatch.wired _ hws
  rw [Set.empty_union] at hwired
  exact hwired.supports hm

/-- Modules of a set that supports itself are found one after the other. -/
theorem exists_resolveFrom (hp : pool.graph.FiltersParse) (hS : ∀ id ∈ S, pool.Supports S id)
    (hids : ∀ id ∈ ids, id ∈ S) (hs : s.Avoids S) : ∃ t, resolveFrom pool s ids = .ok t := by
  induction ids generalizing s with
  | nil => exact ⟨s, rfl⟩
  | cons id ids ih =>
    have hcorrect := resolveModule_correct [] fun p hp => (hS p hp).mono Set.subset_union_left
    obtain ⟨⟨o, t⟩, hr⟩ := exists_resolveModule hp [] s id
    unfold resolveFrom
    rw [hr]
    cases hcorrect hr hs with
    | completed ht => exact ih (fun p hp => hids p (List.mem_cons_of_mem _ hp)) ht
    | failed _ _ hid => exact absurd (hids id List.mem_cons_self) hid

/-! ## When modules can be resolved -/

/-- **Modules can be resolved exactly when they belong to a set of modules that support each
other.** No order of candidates, no cycle and no earlier failure prevents it. -/
theorem exists_resolve_iff (hp : pool.graph.FiltersParse) (ids : List ModuleId) :
    (∃ res, resolve pool ids = .ok res) ↔
      ∃ S : Set ModuleId, (∀ id ∈ ids, id ∈ S) ∧ ∀ id ∈ S, pool.Supports S id := by
  constructor
  · rintro ⟨res, h⟩
    obtain ⟨-, hids, -⟩ := resolve_correct (S := ∅) (fun _ h => h.elim) h
    exact ⟨Members res, hids, fun id hid => members_supports h hid⟩
  · rintro ⟨S, hids, hS⟩
    obtain ⟨t, ht⟩ := exists_resolveFrom (s := {}) hp hS hids fun p hp => by simp at hp
    exact ⟨t.resolved, map_eq_ok_iff.2 ⟨t, ht, rfl⟩⟩

/-- Three modules. The first offers `api` and cannot be resolved. The second offers it as well and
the third makes use of it, and these two need each other. -/
def crossedPool : Pool where
  graph := .ofList
    [{ identity := { symbolicName := "broken", version := .zero }
       capabilities := [{ ns := "api" }], requirements := [{ ns := "nowhere" }] },
     { identity := { symbolicName := "server", version := .zero }
       capabilities := [{ ns := "api" }], requirements := [{ ns := "task" }] },
     { identity := { symbolicName := "client", version := .zero }
       capabilities := [{ ns := "task", attributes := .ofList [("size", .long 3)] }]
       requirements :=
         [{ ns := "api" },
          { ns := "task", directives := .ofList [(Vocabulary.filter, "(size>=2)")] }] }]

/-- Of the broken module, which is tried for the client first, nothing is left. -/
theorem exists_resolve_crossed :
    ∃ res, resolve crossedPool [2] = .ok res ∧ res.map Prod.fst = [1, 2] :=
  exists_eq_ok_of_map (by decide +kernel)

/-- The client can be resolved over the cycle, and the broken module cannot. -/
theorem exists_resolve_iff_crossed :
    crossedPool.graph.FiltersParse ∧
      (∃ S : Set ModuleId, 2 ∈ S ∧ ∀ id ∈ S, crossedPool.Supports S id) ∧
      ¬ ∃ S : Set ModuleId, 0 ∈ S ∧ ∀ id ∈ S, crossedPool.Supports S id := by
  have hp : crossedPool.graph.FiltersParse := by decide +kernel
  obtain ⟨res, hres, -⟩ := exists_resolve_crossed
  have client := (exists_resolve_iff hp [2]).1 ⟨res, hres⟩
  have broken := mt (exists_resolve_iff hp [0]).2 fun ⟨_, h⟩ => by
    have hnone : (resolve crossedPool [0]).toOption.isSome = false := by decide +kernel
    simp [h, Except.toOption] at hnone
  simp only [List.mem_singleton, forall_eq] at client broken
  exact ⟨hp, client, broken⟩

/-! ## Resolutions hold together -/

/-- Wires satisfy requirements in their order. There is one wire for every effective requirement
that is not optional, at most one for every effective one that is, and none for the others. -/
def Follows (rs : List Requirement) (ws : List Wire) : Prop :=
  (ws.map Wire.requirement).Sublist (rs.filter Requirement.isEffective) ∧
    (ws.map Wire.requirement).filter (!·.isOptional) =
      rs.filter fun r => r.isEffective && !r.isOptional

/-- A resolution that serves the modules `ids` and holds together. -/
structure Resolves (pool : Pool) (ids : List ModuleId) (res : Resolution) : Prop where
  nodup : (res.map Prod.fst).Nodup
  mandatory : ∀ id ∈ ids, id ∈ Members res
  follows : ∀ e ∈ res, ∃ m, pool.graph.get? e.1 = some m ∧ Follows m.requirements e.2
  wires : ∀ e ∈ res, ∀ w ∈ e.2, w.requirer = e.1 ∧ w.capability.owner = some w.provider ∧
    w.provider ∈ Members res ∧ ∃ cs, pool.providers w.requirement = .ok cs ∧ w.capability ∈ cs
  /-- Nothing is left of providers that were given up. -/
  reached : ∀ p ∈ Members res, ∃ id ∈ ids, ReflTransGen (Leads res) id p

theorem Wired.follows {X Y : Set ModuleId} {id : ModuleId} {rs us : List Requirement}
    {ws : List Wire} (h : Wired pool X Y id rs ws us) (hus : us = []) : Follows rs ws := by
  induction h with
  | nil => exact ⟨List.Sublist.refl _, rfl⟩
  | idle heff _ ih =>
    simp only [Follows, List.filter_cons, heff]
    exact ih hus
  | @wire r _ _ _ _ _ _ _ heff _ _ _ _ _ ih =>
    obtain ⟨hsub, hfilter⟩ := ih hus
    simp only [Follows, List.map_cons, List.filter_cons, heff, Bool.true_and, ↓reduceIte]
    refine ⟨hsub.cons_cons r, ?_⟩
    rw [hfilter]
  | @skip r _ _ _ _ heff hopt _ _ _ ih =>
    obtain ⟨hsub, hfilter⟩ := ih hus
    simp only [Follows, List.filter_cons, heff, hopt]
    exact ⟨hsub.cons r, hfilter⟩
  | miss => cases hus

/-- **Every resolution holds together**, whatever the modules, filters and added capabilities. -/
theorem resolves_of_resolve (h : resolve pool ids = .ok res) : Resolves pool ids res := by
  obtain ⟨hbatch, hids, hreach⟩ := resolve_correct (S := ∅) (fun _ h => h.elim) h
  refine ⟨hbatch.nodup, hids, ?_, ?_, hreach⟩
  · intro e he
    obtain ⟨m, hm, hwired⟩ := hbatch.wired e he
    exact ⟨m, hm, hwired.follows rfl⟩
  · intro e he w hw
    obtain ⟨m, -, hwired⟩ := hbatch.wired e he
    obtain ⟨hrequirer, howner, hprovided⟩ := hwired.wire_of_mem hw
    exact ⟨hrequirer, howner, provider_mem_members h he hw, hprovided⟩

/-- The client and the server lead to each other, and nothing is left of the broken module. -/
theorem resolves_crossed :
    ∃ res, resolve crossedPool [2] = .ok res ∧ Resolves crossedPool [2] res := by
  obtain ⟨res, h, -⟩ := exists_resolve_crossed
  exact ⟨res, h, resolves_of_resolve h⟩

/-! ## Wires are determined -/

/-- The modules of a resolution belong to the core. -/
theorem members_subset_core (h : resolve pool ids = .ok res) : Members res ⊆ pool.core :=
  Pool.subset_core fun _ hid => members_supports h hid

/-- In a resolution every effective requirement is wired to its first provider in the core. -/
theorem wired_core (h : resolve pool ids = .ok res) {e : Entry} (he : e ∈ res) :
    ∃ m, pool.graph.get? e.1 = some m ∧
      Wired pool pool.core pool.core e.1 m.requirements e.2 [] := by
  obtain ⟨hbatch, -⟩ := resolve_correct (fun _ hid => Pool.supports_core hid) h
  obtain ⟨m, hm, hwired⟩ := hbatch.wired e he
  rw [Set.empty_union] at hwired
  exact ⟨m, hm, hwired.mono le_rfl (members_subset_core h)⟩

/-- **Wires do not depend on what else is resolved.** A module that is part of two resolutions has
the same wires in both, and each of its effective requirements is wired to the first provider in
the core, or to none when there is none. -/
theorem resolve_wires_eq {ids' : List ModuleId} (h : resolve pool ids = .ok res)
    (h' : resolve pool ids' = .ok res') :
    (∀ id ws ws', (id, ws) ∈ res → (id, ws') ∈ res' → ws = ws') ∧
      ∀ e ∈ res, ∃ m, pool.graph.get? e.1 = some m ∧
        Wired pool pool.core pool.core e.1 m.requirements e.2 [] := by
  refine ⟨fun id ws ws' hws hws' => ?_, fun e he => wired_core h he⟩
  obtain ⟨m, hm, hwired⟩ := wired_core h hws
  obtain ⟨m', hm', hwired'⟩ := wired_core h' hws'
  obtain rfl := Option.some.inj (hm.symm.trans hm')
  exact (hwired.unique hwired').1

/-- The client is completed behind the server in the one resolution and before it in the other. -/
theorem resolve_wires_eq_crossed : ∃ res res', resolve crossedPool [2] = .ok res ∧
    resolve crossedPool [1] = .ok res' ∧ res.map Prod.fst = [1, 2] ∧ res'.map Prod.fst = [2, 1] ∧
    ∀ id ws ws', (id, ws) ∈ res → (id, ws') ∈ res' → ws = ws' := by
  obtain ⟨res, h, hres⟩ := exists_resolve_crossed
  obtain ⟨res', h', hres'⟩ := exists_eq_ok_of_map (show
    (resolve crossedPool [1]).toOption.map (·.map Prod.fst) = some [2, 1] by decide +kernel)
  exact ⟨res, res', h, h', hres, hres', (resolve_wires_eq h h').1⟩

end StartOrder.Wiring
