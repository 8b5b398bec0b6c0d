import Mathlib.Order.FixedPoints
import Mathlib.Order.CompletePartialOrder
import StartOrder.Proofs.Success
import StartOrder.Wiring.Resolution

/-!
# Modules that support each other

A module can be resolved when every requirement that it has to have met has a provider that can
be resolved, and providers may depend on each other in cycles. So the modules that can be
resolved are a greatest fixed point: the largest set of modules of which each finds its
providers in the set.

What a search makes of the requirements of a module is described against two sets of modules.
Providers of the first set would have been taken and are never passed over; the providers that
are taken belong to the second. When both are the same set, the wires are a function of it.

## Main definitions

* `Pool.Supports S id`: the module finds in `S` what it has to have
* `Pool.support`, `Pool.core`: the operator on sets of modules and its greatest fixed point
* `Graph.FiltersParse`: all filters of requirements are well formed
* `Outside X cs`: no capability of `cs` belongs to a module of `X`
* `Wired pool X Y id rs ws us`: the wires `ws` that the requirements `rs` get, and the
  requirements `us` that stay open

## Main results

* `Pool.of_mem_providers`: what the providers of a requirement are
* `Pool.supports_core`, `Pool.subset_core`: the core supports itself and is the largest such set
* `Wired.supports`, `Wired.not_supports`: a module that is wired is supported by its providers,
  and one that is left open is not supported
* `Wired.unique`: the wires to a set of modules are determined by the set
-/

namespace StartOrder

/-- All filters of the requirements in a graph are well formed. -/
def Graph.FiltersParse (g : Graph) : Prop :=
  ∀ m ∈ g.modules, ∀ r ∈ m.requirements, r.predicate.isOk = true

instance (g : Graph) : Decidable g.FiltersParse :=
  inferInstanceAs (Decidable (∀ m ∈ g.modules, ∀ r ∈ m.requirements, r.predicate.isOk = true))

namespace Wiring

/-! ## Sets of modules that support each other -/

namespace Pool

variable {pool : Pool} {S T : Set ModuleId} {id : ModuleId}

/-- The module at a place finds in `S` a provider for each requirement that has to be met. -/
def Supports (pool : Pool) (S : Set ModuleId) (id : ModuleId) : Prop :=
  ∃ m, pool.graph.get? id = some m ∧
    ∀ r ∈ m.requirements, r.isEffective = true → r.isOptional = false →
      ∃ cs, pool.providers r = .ok cs ∧ ∃ c ∈ cs, ∃ p ∈ S, c.owner = some p

theorem Supports.mono (hST : S ⊆ T) (h : pool.Supports S id) : pool.Supports T id := by
  obtain ⟨m, hm, hr⟩ := h
  refine ⟨m, hm, fun r hmem heff hopt => ?_⟩
  obtain ⟨cs, hcs, c, hc, p, hp, howner⟩ := hr r hmem heff hopt
  exact ⟨cs, hcs, c, hc, p, hST hp, howner⟩

/-- The modules that find in a set what they have to have. -/
def support (pool : Pool) : Set ModuleId →o Set ModuleId where
  toFun S := {id | pool.Supports S id}
  monotone' := fun _ _ hST _ h => h.mono hST

/-- The largest set of modules that support each other. -/
def core (pool : Pool) : Set ModuleId :=
  OrderHom.gfp pool.support

theorem supports_core (h : id ∈ pool.core) : pool.Supports pool.core id :=
  OrderHom.gfp_le_map pool.support le_rfl h

theorem subset_core (h : ∀ id ∈ S, pool.Supports S id) : S ⊆ pool.core :=
  OrderHom.le_gfp pool.support h

end Pool

/-! ## Providers -/

namespace Pool

variable {pool : Pool} {r : Requirement} {c : Capability} {cs : List Capability}

theorem visible_sublist (pool : Pool) (r : Requirement) (cs : List Capability) :
    (pool.visible r cs).Sublist cs := by
  unfold visible
  induction pool.filters generalizing cs with
  | nil => exact List.Sublist.refl cs
  | cons f fs ih =>
    rw [List.foldl_cons]
    exact (ih _).trans (f.keep_sublist pool.graph r cs)

/-- A provider is accepted by the filter, and it is added or declared by a module. -/
theorem of_mem_providers (h : pool.providers r = .ok cs) (hc : c ∈ cs) :
    ∃ test, r.predicate = .ok test ∧ test c.attributes = true ∧ c.ns = r.ns ∧
      (c ∈ pool.hosted ∨ ∃ id n, pool.graph.get? id = some n ∧ c ∈ n.capabilities) := by
  unfold providers at h
  split at h
  · obtain rfl := Except.ok.inj h
    cases (visible_sublist pool r []).subset hc
  · obtain ⟨test, htest, rfl⟩ := map_eq_ok_iff.1 h
    refine ⟨test, htest, ?_⟩
    have haccepted := (visible_sublist pool r _).subset hc
    rcases List.mem_append.1 haccepted with hadded | hdeclared
    · obtain ⟨hadded, hattributes⟩ := List.mem_filter.1 (List.mem_reverse.1 hadded)
      obtain ⟨hhosted, hns⟩ := List.mem_filter.1 hadded
      exact ⟨hattributes, eq_of_beq hns, .inl hhosted⟩
    · obtain ⟨hdeclared, hattributes⟩ := List.mem_filter.1 hdeclared
      obtain ⟨n, hn, hmem⟩ := List.mem_flatMap.1 hdeclared
      obtain ⟨hmem, hns⟩ := List.mem_filter.1 hmem
      obtain ⟨id, hid⟩ := List.mem_iff_getElem?.1 hn
      exact ⟨hattributes, eq_of_beq hns, .inr ⟨id, n, hid, hmem⟩⟩

/-- The providers of a requirement with a well-formed filter can be listed. -/
theorem exists_providers (hp : pool.graph.FiltersParse) {id : ModuleId} {m : Module}
    (hm : pool.graph.get? id = some m) (hr : r ∈ m.requirements) :
    ∃ cs, pool.providers r = .ok cs := by
  have hok := hp m (List.mem_of_getElem? hm) r hr
  cases htest : r.predicate with
  | error e => simp [htest, Except.isOk, Except.toBool] at hok
  | ok test => exact ⟨_, Pool.providers_eq htest⟩

end Pool

/-! ## The wires of a list of requirements -/

/-- No capability belongs to a module of a set. -/
def Outside (X : Set ModuleId) (cs : List Capability) : Prop :=
  ∀ c ∈ cs, ∀ p, c.owner = some p → p ∉ X

theorem Outside.nil {X : Set ModuleId} : Outside X [] := fun _ h => by cases h

theorem Outside.cons {X : Set ModuleId} {c : Capability} {cs : List Capability}
    (hc : ∀ p, c.owner = some p → p ∉ X) (hcs : Outside X cs) : Outside X (c :: cs) := by
  intro d hd
  rcases List.mem_cons.1 hd with rfl | hd
  · exact hc
  · exact hcs d hd

/-- Of the capabilities of a list only one is the first that belongs to a module of a set. -/
theorem Outside.first_unique {X : Set ModuleId} {pre pre' post post' : List Capability}
    {c c' : Capability} {p p' : ModuleId} (hpre : Outside X pre) (hpre' : Outside X pre')
    (hc : c.owner = some p) (hp : p ∈ X) (hc' : c'.owner = some p') (hp' : p' ∈ X)
    (h : pre ++ c :: post = pre' ++ c' :: post') : c = c' := by
  -- The one list of passed capabilities may not reach as far as the first hit of the other.
  induction pre generalizing pre' with
  | nil =>
    cases pre' with
    | nil => exact (List.cons.inj h).1
    | cons d pre' =>
      obtain ⟨rfl, -⟩ := List.cons.inj h
      exact absurd hp (hpre' c List.mem_cons_self p hc)
  | cons d pre ih =>
    cases pre' with
    | nil =>
      obtain ⟨rfl, -⟩ := List.cons.inj h
      exact absurd hp' (hpre d List.mem_cons_self p' hc')
    | cons d' pre' =>
      exact ih (fun c hc => hpre c (List.mem_cons_of_mem _ hc))
        (fun c hc => hpre' c (List.mem_cons_of_mem _ hc)) (List.cons.inj h).2

theorem Outside.anti {X X' : Set ModuleId} {cs : List Capability} (hX : X' ⊆ X)
    (h : Outside X cs) : Outside X' cs :=
  fun c hc p hp hmem => h c hc p hp (hX hmem)

/-- The wires `ws` that the module `id` gets for requirements in order, and the requirements `us`
that stay open. Each wire leads to a provider of `Y`, and none of `X` comes before it. -/
inductive Wired (pool : Pool) (X Y : Set ModuleId) (id : ModuleId) :
    List Requirement → List Wire → List Requirement → Prop
  | nil : Wired pool X Y id [] [] []
  /-- A requirement that is not effective gets no wire. -/
  | idle {r rs ws us} (heff : r.isEffective = false) (rest : Wired pool X Y id rs ws us) :
      Wired pool X Y id (r :: rs) ws us
  /-- An effective requirement gets the first provider that is to be had. -/
  | wire {r rs ws us pre c post p} (heff : r.isEffective = true)
      (hcs : pool.providers r = .ok (pre ++ c :: post)) (hpre : Outside X pre)
      (howner : c.owner = some p) (hp : p ∈ Y) (rest : Wired pool X Y id rs ws us) :
      Wired pool X Y id (r :: rs) (⟨id, r, p, c⟩ :: ws) us
  /-- An optional requirement without a provider gets no wire. -/
  | skip {r rs ws us cs} (heff : r.isEffective = true) (hopt : r.isOptional = true)
      (hcs : pool.providers r = .ok cs) (hout : Outside X cs) (rest : Wired pool X Y id rs ws us) :
      Wired pool X Y id (r :: rs) ws us
  /-- Any other requirement without a provider stays open. -/
  | miss {r rs ws us cs} (heff : r.isEffective = true) (hopt : r.isOptional = false)
      (hcs : pool.providers r = .ok cs) (hout : Outside X cs) (rest : Wired pool X Y id rs ws us) :
      Wired pool X Y id (r :: rs) ws (r :: us)

namespace Wired

variable {pool : Pool} {X X' Y Y' : Set ModuleId} {id : ModuleId} {rs us : List Requirement}
  {ws : List Wire}

theorem mono (hX : X' ⊆ X) (hY : Y ⊆ Y') (h : Wired pool X Y id rs ws us) :
    Wired pool X' Y' id rs ws us := by
  induction h with
  | nil => exact .nil
  | idle heff _ ih => exact .idle heff ih
  | wire heff hcs hpre howner hp _ ih => exact .wire heff hcs (hpre.anti hX) howner (hY hp) ih
  | skip heff hopt hcs hout _ ih => exact .skip heff hopt hcs (hout.anti hX) ih
  | miss heff hopt hcs hout _ ih => exact .miss heff hopt hcs (hout.anti hX) ih

theorem provider_mem (h : Wired pool X Y id rs ws us) {w : Wire} (hw : w ∈ ws) :
    w.provider ∈ Y := by
  induction h with
  | nil => cases hw
  | idle _ _ ih => exact ih hw
  | wire _ _ _ _ hp _ ih =>
    rcases List.mem_cons.1 hw with rfl | hw
    · exact hp
    · exact ih hw
  | skip _ _ _ _ _ ih => exact ih hw
  | miss _ _ _ _ _ ih => exact ih hw

/-- Every wire starts at the module and leads to the owner of one of the providers. -/
theorem wire_of_mem (h : Wired pool X Y id rs ws us) {w : Wire} (hw : w ∈ ws) :
    w.requirer = id ∧ w.capability.owner = some w.provider ∧
      ∃ cs, pool.providers w.requirement = .ok cs ∧ w.capability ∈ cs := by
  induction h with
  | nil => cases hw
  | idle _ _ ih => exact ih hw
  | wire _ hcs _ howner _ _ ih =>
    rcases List.mem_cons.1 hw with rfl | hw
    · exact ⟨rfl, howner, _, hcs, by simp⟩
    · exact ih hw
  | skip _ _ _ _ _ ih => exact ih hw
  | miss _ _ _ _ _ ih => exact ih hw

/-- A requirement that stays open has no provider of the first set. -/
theorem outside_of_open (h : Wired pool X Y id rs ws us) {r : Requirement} (hr : r ∈ us) :
    r ∈ rs ∧ r.isEffective = true ∧ r.isOptional = false ∧
      ∃ cs, pool.providers r = .ok cs ∧ Outside X cs := by
  induction h with
  | nil => cases hr
  | idle _ _ ih => exact (ih hr).imp_left (List.mem_cons_of_mem _)
  | wire _ _ _ _ _ _ ih => exact (ih hr).imp_left (List.mem_cons_of_mem _)
  | skip _ _ _ _ _ ih => exact (ih hr).imp_left (List.mem_cons_of_mem _)
  | miss heff hopt hcs hout _ ih =>
    rcases List.mem_cons.1 hr with rfl | hr
    · exact ⟨List.mem_cons_self, heff, hopt, _, hcs, hout⟩
    · exact (ih hr).imp_left (List.mem_cons_of_mem _)

/-- A requirement that has to be met and does not stay open has a wire. -/
theorem wire_or_open (h : Wired pool X Y id rs ws us) {r : Requirement} (hr : r ∈ rs)
    (heff : r.isEffective = true) (hopt : r.isOptional = false) :
    r ∈ us ∨ ∃ w ∈ ws, w.requirement = r := by
  induction h with
  | nil => cases hr
  | idle hidle _ ih =>
    rcases List.mem_cons.1 hr with rfl | hr
    · simp [hidle] at heff
    · exact ih hr
  | wire _ _ _ _ _ _ ih =>
    rcases List.mem_cons.1 hr with rfl | hr
    · exact .inr ⟨_, List.mem_cons_self, rfl⟩
    · obtain hopen | ⟨w, hw, hwr⟩ := ih hr
      · exact .inl hopen
      · exact .inr ⟨w, List.mem_cons_of_mem _ hw, hwr⟩
  | skip _ hskip _ _ _ ih =>
    rcases List.mem_cons.1 hr with rfl | hr
    · simp [hskip] at hopt
    · exact ih hr
  | miss _ _ _ _ _ ih =>
    rcases List.mem_cons.1 hr with rfl | hr
    · exact .inl List.mem_cons_self
    · exact (ih hr).imp_left (List.mem_cons_of_mem _)

/-- A module of which no requirement stays open is supported by its providers. -/
theorem supports {m : Module} (hm : pool.graph.get? id = some m)
    (h : Wired pool X Y id m.requirements ws []) : pool.Supports Y id := by
  refine ⟨m, hm, fun r hr heff hopt => ?_⟩
  obtain hopen | ⟨w, hw, rfl⟩ := h.wire_or_open hr heff hopt
  · cases hopen
  · obtain ⟨-, howner, cs, hcs, hc⟩ := h.wire_of_mem hw
    exact ⟨cs, hcs, w.capability, hc, w.provider, h.provider_mem hw, howner⟩

/-- A module of which a requirement stays open is not supported by the modules that would have
been taken. -/
theorem not_supports {m : Module} (hm : pool.graph.get? id = some m)
    (h : Wired pool X Y id m.requirements ws us) (hopen : us ≠ []) : ¬ pool.Supports X id := by
  rintro ⟨m', hm', hmet⟩
  obtain rfl := Option.some.inj (hm.symm.trans hm')
  obtain ⟨r, hr⟩ := List.exists_mem_of_ne_nil _ hopen
  obtain ⟨hmem, heff, hopt, cs, hcs, hout⟩ := h.outside_of_open hr
  obtain ⟨cs', hcs', c, hc, p, hp, howner⟩ := hmet r hmem heff hopt
  obtain rfl := Except.ok.inj (hcs.symm.trans hcs')
  exact hout c hc p howner hp

/-- The wires that lead to the first providers in a set are determined by the set. -/
theorem unique {ws' us'} (h : Wired pool X X id rs ws us) (h' : Wired pool X X id rs ws' us') :
    ws = ws' ∧ us = us' := by
  induction h generalizing ws' us' with
  | nil =>
    cases h'
    exact ⟨rfl, rfl⟩
  | idle heff _ ih =>
    cases h' with
    | idle _ rest => exact ih rest
    | wire heff' | skip heff' | miss heff' => simp [heff] at heff'
  | wire heff hcs hpre howner hp _ ih =>
    cases h' with
    | idle heff' => simp [heff] at heff'
    | wire _ hcs' hpre' howner' hp' rest =>
      have hlist := Except.ok.inj (hcs.symm.trans hcs')
      obtain rfl := hpre.first_unique hpre' howner hp howner' hp' hlist
      obtain rfl := Option.some.inj (howner.symm.trans howner')
      obtain ⟨rfl, rfl⟩ := ih rest
      exact ⟨rfl, rfl⟩
    | skip _ _ hcs' hout | miss _ _ hcs' hout =>
      obtain rfl := Except.ok.inj (hcs.symm.trans hcs')
      exact absurd hp (hout _ (by simp) _ howner)
  | skip heff hopt hcs hout _ ih =>
    cases h' with
    | idle heff' => simp [heff] at heff'
    | wire _ hcs' _ howner' hp' =>
      obtain rfl := Except.ok.inj (hcs.symm.trans hcs')
      exact absurd hp' (hout _ (by simp) _ howner')
    | skip _ _ _ _ rest => exact ih rest
    | miss _ hopt' => simp [hopt] at hopt'
  | miss heff hopt hcs hout _ ih =>
    cases h' with
    | idle heff' => simp [heff] at heff'
    | wire _ hcs' _ howner' hp' =>
      obtain rfl := Except.ok.inj (hcs.symm.trans hcs')
      exact absurd hp' (hout _ (by simp) _ howner')
    | skip _ hopt' => simp [hopt] at hopt'
    | miss _ _ _ _ rest =>
      obtain ⟨rfl, rfl⟩ := ih rest
      exact ⟨rfl, rfl⟩

end Wired

end Wiring

end StartOrder
