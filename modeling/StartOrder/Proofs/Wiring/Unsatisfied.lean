import Mathlib.Order.FixedPoints
import StartOrder.Proofs.Wiring.Resolution

/-!
# What a failure reports

When a single module is asked for and cannot be resolved, the failure lists the requirements that
stay open. They are tried one after the other in a session that earlier ones have changed: modules
have been completed, given up and remembered. But all that is settled while the module is in
progress belongs to the largest set of modules that support each other as long as the module is
there, and nothing of this set is ever passed over. So a requirement stays open exactly when none of
its providers belongs to the set or to the module itself, whatever has been tried before.

## Main definitions

* `Pool.coreAbove K`: the largest set of modules that support each other as long as `K` is there
* `lacking pool X rs`: the requirements that have to be met and have no provider in `X`

## Main results

* `Pool.isGreatest_coreAbove`: the core above a set is the largest set of its kind
* `Wired.unsatisfied_eq`, `unsatisfied_of_wireAll`: the requirements that stay open
* `resolve_eq_error_iff`: what is reported when a module cannot be resolved
-/

namespace StartOrder.Wiring

variable {pool : Pool} {S K X : Set ModuleId} {A : List ModuleId} {s t : Session}
  {new : Resolution} {id : ModuleId} {m : Module} {r : Requirement} {rs us : List Requirement}
  {ws : List Wire} {p : Progress}

/-! ## Modules that support each other above others -/

namespace Pool

/-- The modules that find in a set or in `K` what they have to have. -/
def supportAbove (pool : Pool) (K : Set ModuleId) : Set ModuleId →o Set ModuleId where
  toFun S := {id | pool.Supports (S ∪ K) id}
  monotone' := fun _ _ hST _ h => h.mono (Set.union_subset_union_left K hST)

/-- The largest set of modules that support each other as long as the modules in `K` are there. -/
def coreAbove (pool : Pool) (K : Set ModuleId) : Set ModuleId :=
  OrderHom.gfp (pool.supportAbove K)

theorem supports_coreAbove (h : id ∈ pool.coreAbove K) :
    pool.Supports (pool.coreAbove K ∪ K) id :=
  OrderHom.gfp_le_map (pool.supportAbove K) le_rfl h

theorem subset_coreAbove (h : ∀ id ∈ S, pool.Supports (S ∪ K) id) : S ⊆ pool.coreAbove K :=
  OrderHom.le_gfp (pool.supportAbove K) h

/-- The core above a set is the largest of the sets of modules that support each other. -/
theorem isGreatest_coreAbove (pool : Pool) (K : Set ModuleId) :
    IsGreatest {S | ∀ id ∈ S, pool.Supports (S ∪ K) id} (pool.coreAbove K) :=
  ⟨fun _ => supports_coreAbove, fun _ => subset_coreAbove⟩

end Pool

/-- Entries that hang together above a set belong to the core above it. -/
theorem Batch.subset_coreAbove (h : Batch pool S K new) : Members new ⊆ pool.coreAbove K := by
  refine Pool.subset_coreAbove fun id hid => ?_
  obtain ⟨ws, hws⟩ := mem_members.1 hid
  obtain ⟨m, hm, hwired⟩ := h.wired _ hws
  rw [Set.union_comm]
  exact hwired.supports hm

/-! ## Requirements that stay open -/

open Classical in
/-- The requirements of a list that have to be met and have no provider in `X`, in order. -/
noncomputable def lacking (pool : Pool) (X : Set ModuleId) (rs : List Requirement) :
    List Requirement :=
  rs.filter fun r => r.isEffective && !r.isOptional &&
    decide (∃ cs, pool.providers r = .ok cs ∧ Outside X cs)

theorem lacking_cons_of_outside {cs : List Capability} (heff : r.isEffective = true)
    (hopt : r.isOptional = false) (hcs : pool.providers r = .ok cs) (hout : Outside X cs) :
    lacking pool X (r :: rs) = r :: lacking pool X rs := by
  refine List.filter_cons_of_pos ?_
  simp only [heff, hopt, Bool.not_false, Bool.and_self, Bool.true_and, decide_eq_true_eq]
  exact ⟨cs, hcs, hout⟩

theorem lacking_cons_of_met (h : r.isEffective = true → r.isOptional = false →
      ∀ cs, pool.providers r = .ok cs → ¬ Outside X cs) :
    lacking pool X (r :: rs) = lacking pool X rs := by
  refine List.filter_cons_of_neg ?_
  simp only [Bool.and_eq_true, Bool.not_eq_true', decide_eq_true_eq]
  rintro ⟨⟨heff, hopt⟩, cs, hcs, hout⟩
  exact h heff hopt cs hcs hout

/-- When all providers in a set are taken and no others, the requirements that stay open are those
without a provider in the set. -/
theorem Wired.unsatisfied_eq (h : Wired pool X X id rs ws us) : us = lacking pool X rs := by
  induction h with
  | nil => rfl
  | idle heff _ ih =>
    rw [ih, lacking_cons_of_met fun h => by rw [heff] at h; cases h]
  | wire _ hcs _ howner hp _ ih =>
    rw [ih, lacking_cons_of_met]
    rintro - - cs' hcs' hout
    obtain rfl := Except.ok.inj (hcs.symm.trans hcs')
    exact hout _ (by simp) _ howner hp
  | skip _ hopt _ _ _ ih =>
    rw [ih, lacking_cons_of_met fun _ h => by rw [hopt] at h; cases h]
  | miss heff hopt hcs hout _ ih => rw [ih, lacking_cons_of_outside heff hopt hcs hout]

/-- **The requirements that stay open** in a session that nothing has been done in before, while
the modules `A` are in progress. -/
theorem unsatisfied_of_wireAll (hid : id ∈ A)
    (h : wireAll pool (resolveModule pool A) A id {} rs = .ok (p, t)) :
    p.unsatisfied = lacking pool (pool.coreAbove {q | q ∈ A} ∪ {q | q ∈ A}) rs := by
  have hcorrect := resolveModule_correct A fun q (hq : q ∈ pool.coreAbove {q | q ∈ A}) =>
    Pool.supports_coreAbove hq
  obtain ⟨-, new, hext, hbatch, hwired, -⟩ :=
    hcorrect.wireAll_correct hid h fun q hq => by simp at hq
  -- All that has been completed belongs to the core above the modules in progress.
  rw [Session.settled_empty] at hbatch
  rw [hext.settled_eq, Session.settled_empty, Set.union_comm _ (Members new)] at hwired
  have htaken := Set.union_subset_union_left {q | q ∈ A} hbatch.subset_coreAbove
  exact (hwired.mono le_rfl htaken).unsatisfied_eq

/-- **What is reported when a module cannot be resolved.** A module that is asked for alone fails
when it has to have something that no module of the core above it provides, nor the module itself,
and the failure lists all requirements of this kind in the order of declaration. -/
theorem resolve_eq_error_iff (hp : pool.graph.FiltersParse) (hm : pool.graph.get? id = some m)
    (e : Error) : resolve pool [id] = .error e ↔
      lacking pool (pool.coreAbove {id} ∪ {id}) m.requirements ≠ [] ∧
        e = .unresolvable (.unsatisfied m.identity
          (lacking pool (pool.coreAbove {id} ∪ {id}) m.requirements)) := by
  generalize hus : lacking pool (pool.coreAbove {id} ∪ {id}) m.requirements = us
  have hsingle : {q | q ∈ [id]} = ({id} : Set ModuleId) := by
    ext q
    simp
  have wired {n : Module} {p : Progress} {t : Session} (hn : pool.graph.get? id = some n)
      (hw : wireAll pool (resolveModule pool [id]) [id] id {} n.requirements = .ok (p, t)) :
      n = m ∧ p.unsatisfied = us := by
    obtain rfl := Option.some.inj (hm.symm.trans hn)
    rw [← hus, ← hsingle]
    exact ⟨rfl, unsatisfied_of_wireAll List.mem_cons_self hw⟩
  obtain ⟨⟨o, t⟩, hsearch⟩ := exists_resolveModule hp [] {} id
  have hends := ends_of_resolveModule hsearch
  unfold resolve resolveFrom
  rw [hsearch]
  cases hends with
  | settled hid => simp [Session.settled] at hid
  | unknown _ hnone =>
    rw [hm] at hnone
    cases hnone
  | complete _ hn hw hopen =>
    obtain ⟨-, hlack⟩ := wired hn hw
    rw [hopen] at hlack
    simp [resolveFrom, Except.map, ← hlack]
  | fail _ hn hw hopen =>
    obtain ⟨rfl, hlack⟩ := wired hn hw
    rw [hlack] at hopen ⊢
    simp [Except.map, hopen, eq_comm]

/-- A client that has to have three things. -/
def shortClient : Module where
  identity := { symbolicName := "client", version := .zero }
  capabilities := [{ ns := "task" }]
  requirements := [{ ns := "network" }, { ns := "api" }, { ns := "storage" }]

/-- Three modules. The first offers `api` and `storage` and cannot be resolved. The second offers
`api` as well and needs the third, which is the client. -/
def shortPool : Pool where
  graph := .ofList
    [{ identity := { symbolicName := "broken", version := .zero }
       capabilities := [{ ns := "api" }, { ns := "storage" }]
       requirements := [{ ns := "nowhere" }] },
     { identity := { symbolicName := "server", version := .zero }
       capabilities := [{ ns := "api" }], requirements := [{ ns := "task" }] },
     shortClient]

/-- Nobody offers the client a network, and only the broken module offers storage. The server would
do, though it needs the client itself. -/
theorem resolve_eq_error_iff_short : shortPool.graph.FiltersParse ∧
    shortPool.graph.get? 2 = some (shortClient.ownedBy 2) ∧
    ∃ us, resolve shortPool [2] =
        .error (.unresolvable (.unsatisfied shortClient.identity us)) ∧
      us.map (·.ns) = ["network", "storage"] ∧
      lacking shortPool (shortPool.coreAbove {2} ∪ {2}) (shortClient.ownedBy 2).requirements =
        us := by
  have hp : shortPool.graph.FiltersParse := by decide +kernel
  have hm : shortPool.graph.get? 2 = some (shortClient.ownedBy 2) := by decide +kernel
  have hfail : resolve shortPool [2] = .error (.unresolvable (.unsatisfied shortClient.identity
      [{ ns := "network", owner := some 2 }, { ns := "storage", owner := some 2 }])) := by
    decide +kernel
  obtain ⟨-, hreport⟩ := (resolve_eq_error_iff hp hm _).1 hfail
  obtain ⟨-, hus⟩ := Failure.unsatisfied.inj (Error.unresolvable.inj hreport)
  exact ⟨hp, hm, _, hfail, rfl, hus.symm⟩

end StartOrder.Wiring
