import Mathlib.Logic.Relation
import StartOrder.Proofs.Wiring.Support

/-!
# What a search keeps

A search enters modules that are not in progress and completes some of them. What it completes
hangs together: its modules are new, their wires lead to modules that are completed or in
progress, and all of them are reached from the module that was asked for. A provider that fails
leaves nothing behind but the modules that are known to fail.

Failures are final. Let `S` be a set of modules which support each other as long as the modules
in progress are there. Then no module of `S` fails, because for each of its requirements the
search comes to a provider that is in progress or in `S`. So nothing in `S` is ever passed over.

## Main definitions

* `Members`, `Leads`: the modules of a resolution and the relation of its wires
* `Session.Extends s t new`: from `s` to `t` the entries `new` have been added
* `Session.Avoids s S`: no module of `S` is known to fail
* `Batch pool S K new`: the entries `new` hang together above the modules in `K`
* `Attempt.Correct pool S A attempt`: what holds of a search with the modules `A` in progress
* `Chooses`: the steps in which a provider is chosen

## Main results

* `resolveModule_correct`: the search for a module is correct
* `exists_resolveModule`: the search for a module has a result when all filters are well formed
-/

namespace StartOrder.Wiring

open Relation (ReflTransGen)

variable {pool : Pool} {S K : Set ModuleId} {A : List ModuleId} {s t u : Session}
  {new new' : Resolution}

/-! ## Resolutions as relations -/

/-- The modules that have an entry in a resolution. -/
def Members (res : Resolution) : Set ModuleId :=
  {id | id ∈ res.map Prod.fst}

/-- A wire of a resolution leads from the one module to the other. -/
def Leads (res : Resolution) (m p : ModuleId) : Prop :=
  ∃ ws, (m, ws) ∈ res ∧ ∃ w ∈ ws, w.provider = p

@[simp] theorem mem_members {res : Resolution} {id : ModuleId} :
    id ∈ Members res ↔ ∃ ws, (id, ws) ∈ res := by
  simp [Members]

@[simp] theorem members_append : Members (new ++ new') = Members new ∪ Members new' := by
  ext id
  simp [Members]

theorem Leads.mono (h : new ⊆ new') {m p : ModuleId} (hl : Leads new m p) : Leads new' m p := by
  obtain ⟨ws, hws, hw⟩ := hl
  exact ⟨ws, h hws, hw⟩

theorem reaches_mono (h : new ⊆ new') {m p : ModuleId} (hr : ReflTransGen (Leads new) m p) :
    ReflTransGen (Leads new') m p :=
  ReflTransGen.mono (fun _ _ => Leads.mono h) _ _ hr

/-- A module that is completed leads to all that its providers lead to. -/
theorem reaches_complete {id : ModuleId} {ws : List Wire}
    (h : ∀ q ∈ Members new, ∃ w ∈ ws, ReflTransGen (Leads new) w.provider q) :
    ∀ q ∈ Members (new ++ [(id, ws)]), ReflTransGen (Leads (new ++ [(id, ws)])) id q := by
  intro q hq
  rw [members_append] at hq
  rcases hq with hq | hq
  · obtain ⟨w, hw, hwq⟩ := h q hq
    refine .head ⟨ws, by simp, w, hw, rfl⟩ ?_
    exact reaches_mono (List.subset_append_left _ _) hwq
  · obtain rfl : q = id := by simpa [Members] using hq
    exact .refl

/-! ## How a session grows -/

namespace Session

/-- The modules that a search takes for available: those completed and those in progress. -/
def settled (s : Session) (A : List ModuleId) : Set ModuleId :=
  {p | p ∈ s.done ∨ p ∈ A}

/-- No module of a set is known to fail. -/
def Avoids (s : Session) (S : Set ModuleId) : Prop :=
  ∀ p ∈ s.failed, p ∉ S

/-- The entries `new` have been added, and perhaps modules that are known to fail. -/
structure Extends (s t : Session) (new : Resolution) : Prop where
  resolved : t.resolved = s.resolved ++ new
  done : t.done = (new.map Prod.fst).reverse ++ s.done
  failed : s.failed ⊆ t.failed

theorem Extends.refl (s : Session) : s.Extends s [] where
  resolved := (List.append_nil _).symm
  done := rfl
  failed := List.Subset.refl _

theorem Extends.trans (h : s.Extends t new) (h' : t.Extends u new') :
    s.Extends u (new ++ new') where
  resolved := by rw [h'.resolved, h.resolved, List.append_assoc]
  done := by rw [h'.done, h.done, List.map_append, List.reverse_append, List.append_assoc]
  failed := List.Subset.trans h.failed h'.failed

theorem Extends.complete (h : s.Extends t new) (id : ModuleId) (ws : List Wire) :
    s.Extends { t with resolved := t.resolved ++ [(id, ws)], done := id :: t.done }
      (new ++ [(id, ws)]) where
  resolved := by simp [h.resolved]
  done := by simp [h.done]
  failed := h.failed

theorem Extends.remember (h : s.Extends t new) (id : ModuleId) :
    s.Extends { t with failed := id :: t.failed } new where
  resolved := h.resolved
  done := h.done
  failed := fun _ hp => List.mem_cons_of_mem _ (h.failed hp)

theorem Avoids.remember {id : ModuleId} (h : t.Avoids S) (hid : id ∉ S) :
    ({ t with failed := id :: t.failed } : Session).Avoids S := by
  intro p hp
  rcases List.mem_cons.1 hp with rfl | hp
  · exact hid
  · exact h p hp

theorem Extends.settled_eq (h : s.Extends t new) (A : List ModuleId) :
    t.settled A = s.settled A ∪ Members new := by
  ext p
  simp only [settled, Members, h.done, Set.mem_ofPred_eq, Set.mem_union, List.mem_append,
    List.mem_reverse]
  tauto

theorem Extends.settled_subset (h : s.Extends t new) : s.settled A ⊆ t.settled A := by
  rw [h.settled_eq]
  exact Set.subset_union_left

theorem Extends.unique (h : s.Extends t new) (h' : s.Extends t new') : new = new' :=
  List.append_cancel_left (h.resolved.symm.trans h'.resolved)

theorem avoids_empty (s : Session) : s.Avoids ∅ := fun _ _ h => h

/-- Giving up what was added only leaves the modules that are known to fail. -/
theorem Extends.rollback (h : s.Extends t new) :
    { t with resolved := t.resolved.take s.resolved.length, done := s.done } =
      { s with failed := t.failed } := by
  simp [h.resolved]

/-- Before anything is completed only the modules in progress are taken for available. -/
theorem settled_empty (A : List ModuleId) : ({} : Session).settled A = {p | p ∈ A} := by
  ext p
  simp [settled]

theorem settled_cons (s : Session) (id : ModuleId) :
    s.settled (id :: A) = s.settled A ∪ {id} := by
  ext p
  simp only [settled, Set.mem_ofPred_eq, List.mem_cons, Set.mem_union, Set.mem_singleton_iff]
  tauto

end Session

/-! ## Entries that hang together -/

/-- New entries above the modules in `K`. Every module has one entry, its wires lead to `K` or to
new modules, and no provider of `S` has been passed over for them. -/
structure Batch (pool : Pool) (S K : Set ModuleId) (new : Resolution) : Prop where
  nodup : (new.map Prod.fst).Nodup
  fresh : ∀ id ∈ Members new, id ∉ K
  wired : ∀ e ∈ new, ∃ m, pool.graph.get? e.1 = some m ∧
    Wired pool S (K ∪ Members new) e.1 m.requirements e.2 []

namespace Batch

theorem nil : Batch pool S K [] where
  nodup := List.nodup_nil
  fresh := fun _ h => by simp at h
  wired := fun _ h => by cases h

theorem append (h : Batch pool S K new) (h' : Batch pool S (K ∪ Members new) new') :
    Batch pool S K (new ++ new') where
  nodup := by
    rw [List.map_append, List.nodup_append]
    refine ⟨h.nodup, h'.nodup, ?_⟩
    rintro id hid _ hid' rfl
    exact h'.fresh id hid' (.inr hid)
  fresh := by
    intro id hid
    rw [members_append] at hid
    rcases hid with hid | hid
    · exact h.fresh id hid
    · exact fun hK => h'.fresh id hid (.inl hK)
  wired := by
    intro e he
    rw [members_append, ← Set.union_assoc]
    rcases List.mem_append.1 he with he | he
    · obtain ⟨m, hm, hw⟩ := h.wired e he
      exact ⟨m, hm, hw.mono le_rfl Set.subset_union_left⟩
    · exact h'.wired e he

/-- The module in progress under which entries were made becomes the last of them. -/
theorem complete {id : ModuleId} {m : Module} {ws : List Wire}
    (h : Batch pool S (K ∪ {id}) new) (hid : id ∉ K) (hm : pool.graph.get? id = some m)
    (hw : Wired pool S (K ∪ {id} ∪ Members new) id m.requirements ws []) :
    Batch pool S K (new ++ [(id, ws)]) := by
  have hmem : K ∪ Members (new ++ [(id, ws)]) = K ∪ {id} ∪ Members new := by
    ext p
    simp only [members_append, Set.mem_union, Set.mem_singleton_iff]
    simp only [Members, List.map_cons, List.map_nil, List.mem_singleton, Set.mem_ofPred_eq]
    tauto
  refine ⟨?_, ?_, ?_⟩
  · rw [List.map_append, List.nodup_append]
    refine ⟨h.nodup, List.pairwise_singleton _ _, ?_⟩
    rintro p hp _ hp' rfl
    exact h.fresh p hp (.inr (List.mem_singleton.1 hp'))
  · intro p hp
    rw [members_append] at hp
    rcases hp with hp | hp
    · exact fun hK => h.fresh p hp (.inl hK)
    · obtain rfl : p = id := by simpa [Members] using hp
      exact hid
  · intro e he
    rw [hmem]
    rcases List.mem_append.1 he with he | he
    · exact h.wired e he
    · obtain rfl := List.mem_singleton.1 he
      exact ⟨m, hm, hw⟩

end Batch

/-! ## Searches -/

/-- What the search for a module comes to while the modules `A` are in progress. What is completed
hangs together and is reached from the module, and a module that fails does not belong to `S`. -/
inductive Outcome (pool : Pool) (S : Set ModuleId) (A : List ModuleId) (s : Session)
    (id : ModuleId) : Option Failure → Session → Prop
  | completed {t : Session} {new : Resolution} (ht : t.Avoids S) (hext : s.Extends t new)
      (hbatch : Batch pool S (s.settled A) new) (hid : id ∈ t.settled A)
      (hreach : ∀ p ∈ Members new, ReflTransGen (Leads new) id p) : Outcome pool S A s id none t
  | failed {f : Failure} {t : Session} {new : Resolution} (ht : t.Avoids S)
      (hext : s.Extends t new) (hid : id ∉ S) : Outcome pool S A s id (some f) t

/-- A search has one of these outcomes from each state in which no module of `S` is known to
fail. -/
def Attempt.Correct (pool : Pool) (S : Set ModuleId) (A : List ModuleId) (attempt : Attempt) :
    Prop :=
  ∀ ⦃s id o t⦄, attempt s id = .ok (o, t) → s.Avoids S → Outcome pool S A s id o t

/-- What a choice comes to. Either the first provider that does not lie outside `X` belongs to
`Y`, and the entries `new` are reached from it, or all providers lie outside `X`. -/
inductive Picks (X Y : Set ModuleId) (new : Resolution) : List Capability → Choice → Prop
  | wired {pre c post p} (hpre : Outside X pre) (howner : c.owner = some p) (hp : p ∈ Y)
      (hreach : ∀ q ∈ Members new, ReflTransGen (Leads new) p q) :
      Picks X Y new (pre ++ c :: post) (.wired c)
  | unavailable {cs permanent} (hout : Outside X cs) (hnew : new = []) :
      Picks X Y new cs (.unavailable permanent)

theorem Picks.head {X Y : Set ModuleId} {c : Capability} {cs : List Capability} {p : ModuleId}
    (howner : c.owner = some p) (hp : p ∈ Y)
    (hreach : ∀ q ∈ Members new, ReflTransGen (Leads new) p q) :
    Picks X Y new (c :: cs) (.wired c) := by
  rw [← List.nil_append (c :: cs)]
  exact .wired .nil howner hp hreach

theorem Picks.cons {X Y : Set ModuleId} {c : Capability} {cs : List Capability} {o : Choice}
    (hc : ∀ p, c.owner = some p → p ∉ X) (h : Picks X Y new cs o) :
    Picks X Y new (c :: cs) o := by
  cases h with
  | wired hpre howner hp hreach =>
    rw [← List.cons_append]
    exact .wired (Outside.cons hc hpre) howner hp hreach
  | unavailable hout hnew => exact .unavailable (Outside.cons hc hout) hnew

theorem Picks.mono_settled {X Y Y' : Set ModuleId} {cs : List Capability} {o : Choice}
    (hY : Y ⊆ Y') (h : Picks X Y new cs o) : Picks X Y' new cs o := by
  cases h with
  | wired hpre howner hp hreach => exact .wired hpre howner (hY hp) hreach
  | unavailable hout hnew => exact .unavailable hout hnew

/-! ## Choosing a provider -/

namespace Attempt.Correct

variable {attempt : Attempt} {id : ModuleId}

theorem choose_correct (hc : Attempt.Correct pool S A attempt) (hid : id ∈ A) {permanent : Bool}
    {cs : List Capability} {o : Choice}
    (h : choose attempt A id permanent s cs = .ok (o, t)) (hs : s.Avoids S) :
    t.Avoids S ∧ ∃ new, s.Extends t new ∧ Batch pool S (s.settled A) new ∧
      Picks (S ∪ {p | p ∈ A}) (t.settled A) new cs o := by
  induction cs generalizing permanent s with
  | nil =>
    obtain ⟨rfl, rfl⟩ := Prod.mk.inj (Except.ok.inj h)
    exact ⟨hs, [], .refl s, .nil, .unavailable .nil rfl⟩
  | cons c cs ih =>
    unfold choose at h
    cases howner : c.owner with
    | none =>
      simp only [howner] at h
      obtain ⟨ht, new, hext, hbatch, hpicks⟩ := ih h hs
      exact ⟨ht, new, hext, hbatch, hpicks.cons fun p hp => by simp [howner] at hp⟩
    | some p =>
      simp only [howner] at h
      split at h
      · next hsettled =>
        obtain ⟨rfl, rfl⟩ := Prod.mk.inj (Except.ok.inj h)
        refine ⟨hs, [], .refl s, .nil, .head howner ?_ (by simp)⟩
        rcases hsettled with rfl | hdone | hA
        · exact .inr hid
        · exact .inl hdone
        · exact .inr hA
      · next hsettled =>
        have hA : p ∉ A := fun hA => hsettled (.inr (.inr hA))
        have pass (hp : p ∉ S) : ∀ q, c.owner = some q → q ∉ S ∪ {p | p ∈ A} := by
          intro q hq
          obtain rfl := Option.some.inj (howner.symm.trans hq)
          exact fun hq => hq.elim hp hA
        split at h
        · next hfailed =>
          obtain ⟨ht, new, hext, hbatch, hpicks⟩ := ih h hs
          exact ⟨ht, new, hext, hbatch, hpicks.cons (pass (hs p hfailed))⟩
        · split at h
          · cases h
          · next u hu =>
            obtain ⟨rfl, rfl⟩ := Prod.mk.inj (Except.ok.inj h)
            cases hc hu hs with
            | completed ht hext hbatch hp hreach =>
              exact ⟨ht, _, hext, hbatch, .head howner hp hreach⟩
          · next f u hu =>
            cases hc hu hs with
            | failed hus hgiven hp =>
              -- After the rollback only the known failures differ, so the rest adds to `s` itself.
              rw [hgiven.rollback] at h
              obtain ⟨ht, new, hext, hbatch, hpicks⟩ := ih h hus
              refine ⟨ht, new, ⟨hext.resolved, hext.done, ?_⟩, hbatch, hpicks.cons (pass hp)⟩
              exact List.Subset.trans hgiven.failed hext.failed

end Attempt.Correct

/-! ## The steps of a choice -/

/-- How the provider of a requirement is chosen, step by step. An attempt that fails leaves nothing
behind but the failures that have been remembered. -/
inductive Chooses (attempt : Attempt) (A : List ModuleId) (id : ModuleId) :
    Bool → Session → List Capability → Choice → Session → Prop
  | exhausted {permanent s} : Chooses attempt A id permanent s [] (.unavailable permanent) s
  | unowned {permanent s c cs o t} (howner : c.owner = none)
      (rest : Chooses attempt A id permanent s cs o t) :
      Chooses attempt A id permanent s (c :: cs) o t
  | settled {permanent s c cs p} (howner : c.owner = some p) (hp : p = id ∨ p ∈ s.settled A) :
      Chooses attempt A id permanent s (c :: cs) (.wired c) s
  | remembered {permanent s c cs o t p} (howner : c.owner = some p)
      (hnew : ¬ (p = id ∨ p ∈ s.settled A)) (hmem : p ∈ s.failed)
      (rest : Chooses attempt A id permanent s cs o t) :
      Chooses attempt A id permanent s (c :: cs) o t
  | completed {permanent s c cs t p} (howner : c.owner = some p)
      (hnew : ¬ (p = id ∨ p ∈ s.settled A)) (hmem : p ∉ s.failed)
      (hp : attempt s p = .ok (none, t)) :
      Chooses attempt A id permanent s (c :: cs) (.wired c) t
  | failed {permanent s c cs o t p f u new} (howner : c.owner = some p)
      (hnew : ¬ (p = id ∨ p ∈ s.settled A)) (hmem : p ∉ s.failed)
      (hp : attempt s p = .ok (some f, u)) (hext : s.Extends u new)
      (rest : Chooses attempt A id (permanent && decide (p ∈ u.failed))
        { s with failed := u.failed } cs o t) :
      Chooses attempt A id permanent s (c :: cs) o t

/-- A choice is made in these steps. -/
theorem Attempt.Correct.chooses {attempt : Attempt} {id : ModuleId} {permanent : Bool}
    {cs : List Capability} {o : Choice} (hc : Attempt.Correct pool ∅ A attempt)
    (h : choose attempt A id permanent s cs = .ok (o, t)) :
    Chooses attempt A id permanent s cs o t := by
  induction cs generalizing permanent s with
  | nil =>
    obtain ⟨rfl, rfl⟩ := Prod.mk.inj (Except.ok.inj h)
    exact .exhausted
  | cons c cs ih =>
    unfold choose at h
    split at h
    · next howner => exact .unowned howner (ih h)
    · next p howner =>
      split at h
      · next hp =>
        obtain ⟨rfl, rfl⟩ := Prod.mk.inj (Except.ok.inj h)
        exact .settled howner hp
      · next hnew =>
        split at h
        · next hmem => exact .remembered howner hnew hmem (ih h)
        · next hmem =>
          split at h
          · cases h
          · next u hu =>
            obtain ⟨rfl, rfl⟩ := Prod.mk.inj (Except.ok.inj h)
            exact .completed howner hnew hmem hu
          · next f u hu =>
            cases hc hu s.avoids_empty with
            | failed _ hext _ =>
              rw [hext.rollback] at h
              exact .failed howner hnew hmem hu hext (ih h)

/-- These steps make a choice. -/
theorem Chooses.choose_eq {attempt : Attempt} {id : ModuleId} {permanent : Bool}
    {cs : List Capability} {o : Choice} (h : Chooses attempt A id permanent s cs o t) :
    choose attempt A id permanent s cs = .ok (o, t) := by
  induction h with
  | exhausted => rfl
  | unowned howner _ ih =>
    unfold choose
    rw [howner]
    exact ih
  | settled howner hp =>
    unfold choose
    rw [howner]
    exact if_pos hp
  | remembered howner hnew hmem _ ih =>
    unfold choose
    rw [howner]
    exact (if_neg hnew).trans ((if_pos hmem).trans ih)
  | completed howner hnew hmem hp =>
    unfold choose
    rw [howner]
    refine (if_neg hnew).trans ((if_neg hmem).trans ?_)
    rw [hp]
  | failed howner hnew hmem hp hext _ ih =>
    unfold choose
    rw [howner]
    refine (if_neg hnew).trans ((if_neg hmem).trans ?_)
    rw [hp]
    dsimp only
    rw [hext.rollback]
    exact ih

/-! ## Wiring requirements -/

/-- The parts of wiring an effective requirement and those behind it. -/
theorem wireAll_cons_ok {attempt : Attempt} {id : ModuleId} {r : Requirement}
    {rs : List Requirement} {p : Progress} (heff : r.isEffective = true)
    (h : wireAll pool attempt A id s (r :: rs) = .ok (p, t)) :
    ∃ cs o u q, pool.providers r = .ok cs ∧ choose attempt A id true s cs = .ok (o, u) ∧
      wireAll pool attempt A id u rs = .ok (q, t) ∧ p = q.add id r o := by
  simp only [wireAll, heff, ↓reduceIte] at h
  obtain ⟨cs, hcs, h⟩ := bind_eq_ok_iff.1 h
  obtain ⟨⟨o, u⟩, hchoose, h⟩ := bind_eq_ok_iff.1 h
  obtain ⟨⟨q, v⟩, hrest, h⟩ := bind_eq_ok_iff.1 h
  obtain ⟨rfl, rfl⟩ := Prod.mk.inj (Except.ok.inj h)
  exact ⟨cs, o, u, q, hcs, hchoose, hrest, rfl⟩

/-- A choice adds the wire or the open requirement that it stands for. -/
theorem Picks.wired_add {X Y : Set ModuleId} {id : ModuleId} {r : Requirement}
    {rs : List Requirement} {cs : List Capability} {o : Choice} {q : Progress}
    (h : Picks X Y new cs o) (heff : r.isEffective = true) (hcs : pool.providers r = .ok cs)
    (rest : Wired pool X Y id rs q.wires q.unsatisfied) :
    Wired pool X Y id (r :: rs) (q.add id r o).wires (q.add id r o).unsatisfied := by
  cases h with
  | wired hpre howner hp _ =>
    simp only [Progress.add, howner, Option.getD_some]
    exact .wire heff hcs hpre howner hp rest
  | unavailable hout _ =>
    cases hopt : r.isOptional with
    | true =>
      simp only [Progress.add, hopt, ↓reduceIte]
      exact .skip heff hopt hcs hout rest
    | false =>
      simp only [Progress.add, hopt, Bool.false_eq_true, ↓reduceIte]
      exact .miss heff hopt hcs hout rest

theorem wires_subset_add {id : ModuleId} {r : Requirement} {q : Progress} (o : Choice) :
    q.wires ⊆ (q.add id r o).wires := by
  cases o with
  | wired c => exact List.subset_cons_self _ _
  | unavailable permanent =>
    simp only [Progress.add]
    split <;> exact List.Subset.refl _

namespace Attempt.Correct

variable {attempt : Attempt} {id : ModuleId}

theorem wireAll_correct (hc : Attempt.Correct pool S A attempt) (hid : id ∈ A)
    {rs : List Requirement} {p : Progress}
    (h : wireAll pool attempt A id s rs = .ok (p, t)) (hs : s.Avoids S) :
    t.Avoids S ∧ ∃ new, s.Extends t new ∧ Batch pool S (s.settled A) new ∧
      Wired pool (S ∪ {p | p ∈ A}) (t.settled A) id rs p.wires p.unsatisfied ∧
      ∀ q ∈ Members new, ∃ w ∈ p.wires, ReflTransGen (Leads new) w.provider q := by
  induction rs generalizing s p with
  | nil =>
    obtain ⟨rfl, rfl⟩ := Prod.mk.inj (Except.ok.inj h)
    exact ⟨hs, [], .refl s, .nil, .nil, by simp⟩
  | cons r rs ih =>
    cases heff : r.isEffective with
    | false =>
      simp only [wireAll, heff, Bool.false_eq_true, ↓reduceIte] at h
      obtain ⟨ht, new, hext, hbatch, hwired, hreach⟩ := ih h hs
      exact ⟨ht, new, hext, hbatch, .idle heff hwired, hreach⟩
    | true =>
      obtain ⟨cs, o, u, q, hcs, hchoose, hrest, rfl⟩ := wireAll_cons_ok heff h
      obtain ⟨hu, new, hext, hbatch, hpicks⟩ := hc.choose_correct hid hchoose hs
      obtain ⟨ht, new', hext', hbatch', hwired, hreach⟩ := ih hrest hu
      rw [hext.settled_eq] at hbatch'
      refine ⟨ht, new ++ new', hext.trans hext', hbatch.append hbatch', ?_, ?_⟩
      · exact (hpicks.mono_settled hext'.settled_subset).wired_add heff hcs hwired
      · intro m hm
        rw [members_append] at hm
        rcases hm with hm | hm
        · cases hpicks with
          | wired _ howner _ hreach =>
            refine ⟨_, List.mem_cons_self, ?_⟩
            simp only [howner, Option.getD_some]
            exact reaches_mono (List.subset_append_left _ _) (hreach m hm)
          | unavailable _ hnew => simp [hnew] at hm
        · obtain ⟨w, hw, hwm⟩ := hreach m hm
          exact ⟨w, wires_subset_add o hw, reaches_mono (List.subset_append_right _ _) hwm⟩

end Attempt.Correct

/-! ## Resolving a module -/

theorem mem_ids_of_get? {g : Graph} {id : ModuleId} {m : Module} (h : g.get? id = some m) :
    id ∈ g.ids := by
  by_contra hid
  rw [Graph.get?_eq_none_iff.2 hid] at h
  cases h

/-- Induction on the modules in progress: it goes back from more of them to fewer. -/
theorem entering_induction (g : Graph) {motive : List ModuleId → Prop}
    (step : ∀ A, (∀ id ∈ g.ids, id ∉ A → motive (id :: A)) → motive A) (A : List ModuleId) :
    motive A := by
  induction hn : (unentered g A).length using Nat.strongRecOn generalizing A with
  | _ n ih =>
    refine step A fun id hid hnew => ?_
    exact ih _ (hn ▸ unentered_cons_lt hid hnew) (id :: A) rfl

/-- The ways in which the search for a module can end. -/
inductive Ends (pool : Pool) (A : List ModuleId) (s : Session) (id : ModuleId) :
    Option Failure → Session → Prop
  | settled (hid : id ∈ s.settled A) : Ends pool A s id none s
  | unknown (hid : id ∉ s.settled A) (hm : pool.graph.get? id = none) :
      Ends pool A s id (some (.unknown id)) s
  | complete {m : Module} {p : Progress} {t : Session} (hid : id ∉ s.settled A)
      (hm : pool.graph.get? id = some m)
      (hw : wireAll pool (resolveModule pool (id :: A)) (id :: A) id s m.requirements =
        .ok (p, t)) (hopen : p.unsatisfied = []) :
      Ends pool A s id none
        { t with resolved := t.resolved ++ [(id, p.wires)], done := id :: t.done }
  | fail {m : Module} {p : Progress} {t : Session} (hid : id ∉ s.settled A)
      (hm : pool.graph.get? id = some m)
      (hw : wireAll pool (resolveModule pool (id :: A)) (id :: A) id s m.requirements =
        .ok (p, t)) (hopen : p.unsatisfied ≠ []) :
      Ends pool A s id (some (.unsatisfied m.identity p.unsatisfied))
        (if p.permanent then { t with failed := id :: t.failed } else t)

theorem ends_of_resolveModule {id : ModuleId} {o : Option Failure}
    (h : resolveModule pool A s id = .ok (o, t)) : Ends pool A s id o t := by
  unfold resolveModule at h
  split at h
  · next hid =>
    obtain ⟨rfl, rfl⟩ := Prod.mk.inj (Except.ok.inj h)
    exact .settled hid
  · next hid =>
    split at h
    · next hm =>
      obtain ⟨rfl, rfl⟩ := Prod.mk.inj (Except.ok.inj h)
      exact .unknown hid hm
    · next m hm =>
      obtain ⟨⟨p, u⟩, hw, h⟩ := bind_eq_ok_iff.1 h
      dsimp only at h
      split at h
      · next hopen =>
        obtain ⟨rfl, rfl⟩ := Prod.mk.inj (Except.ok.inj h)
        exact .complete hid hm hw (List.isEmpty_iff.1 hopen)
      · next hopen =>
        obtain ⟨rfl, rfl⟩ := Prod.mk.inj (Except.ok.inj h)
        exact .fail hid hm hw fun he => hopen (List.isEmpty_iff.2 he)

/-- **The search for a module is correct** for any set of modules that support each other as
long as the modules in progress are there. -/
theorem resolveModule_correct (A : List ModuleId)
    (hS : ∀ id ∈ S, pool.Supports (S ∪ {p | p ∈ A}) id) :
    Attempt.Correct pool S A (resolveModule pool A) := by
  induction A using entering_induction pool.graph with
  | step A ih =>
    intro s id o t h hs
    -- The requirements are wired with one more module in progress, and the hypothesis on `S`
    -- becomes weaker with it.
    have inner {m p t} (hid : id ∉ s.settled A) (hm : pool.graph.get? id = some m)
        (hw : wireAll pool (resolveModule pool (id :: A)) (id :: A) id s m.requirements =
          .ok (p, t)) := by
      refine (ih id (mem_ids_of_get? hm) (fun h => hid (.inr h)) fun q hq => ?_).wireAll_correct
        List.mem_cons_self hw hs
      exact (hS q hq).mono (Set.union_subset_union_right _ fun p hp => List.mem_cons_of_mem _ hp)
    cases ends_of_resolveModule h with
    | settled hid => exact .completed hs (.refl s) .nil hid (by simp)
    | unknown hid hm =>
      refine .failed hs (.refl s) fun hmem => ?_
      obtain ⟨m, hm', -⟩ := hS id hmem
      simp [hm] at hm'
    | complete hid hm hw hopen =>
      obtain ⟨ht, new, hext, hbatch, hwired, hreach⟩ := inner hid hm hw
      rw [Session.settled_cons] at hbatch
      rw [hext.settled_eq, Session.settled_cons, hopen] at hwired
      have hnew := hbatch.complete hid hm (hwired.mono Set.subset_union_left le_rfl)
      exact .completed ht (hext.complete _ _) hnew (.inl List.mem_cons_self)
        (reaches_complete hreach)
    | fail hid hm hw hopen =>
      obtain ⟨ht, new, hext, -, hwired, -⟩ := inner hid hm hw
      -- A module of `S` finds its providers in `S` or in progress, so nothing stays open.
      have hfail : id ∉ S := by
        intro hid'
        refine hwired.not_supports hm hopen ((hS id hid').mono ?_)
        exact Set.union_subset_union_right _ fun p hp => List.mem_cons_of_mem _ hp
      split
      · exact .failed (ht.remember hfail) (hext.remember id) hfail
      · exact .failed ht hext hfail

/-! ## Searches with well-formed filters -/

theorem exists_choose {attempt : Attempt} (hA : ∀ s id, ∃ r, attempt s id = .ok r)
    (A : List ModuleId) (id : ModuleId) (permanent : Bool) (s : Session) (cs : List Capability) :
    ∃ r, choose attempt A id permanent s cs = .ok r := by
  induction cs generalizing permanent s with
  | nil => exact ⟨_, rfl⟩
  | cons c cs ih =>
    unfold choose
    split
    · exact ih _ _
    · next p _ =>
      split
      · exact ⟨_, rfl⟩
      · split
        · exact ih _ _
        · obtain ⟨⟨o, t⟩, hr⟩ := hA s p
          rw [hr]
          cases o with
          | none => exact ⟨_, rfl⟩
          | some f => exact ih _ _

theorem exists_wireAll {attempt : Attempt} {rs : List Requirement}
    (hA : ∀ s id, ∃ r, attempt s id = .ok r) (hrs : ∀ r ∈ rs, ∃ cs, pool.providers r = .ok cs)
    (A : List ModuleId) (id : ModuleId) (s : Session) :
    ∃ r, wireAll pool attempt A id s rs = .ok r := by
  induction rs generalizing s with
  | nil => exact ⟨_, rfl⟩
  | cons r rs ih =>
    have ih := ih fun r hr => hrs r (List.mem_cons_of_mem _ hr)
    obtain ⟨cs, hcs⟩ := hrs r List.mem_cons_self
    obtain ⟨⟨o, t⟩, hchoose⟩ := exists_choose hA A id true s cs
    obtain ⟨⟨q, u⟩, hrest⟩ := ih t
    unfold wireAll
    split
    · simp only [hcs, hchoose, hrest, bind, Except.bind]
      exact ⟨_, rfl⟩
    · exact ih s

/-- A search has a result when all filters are well formed. -/
theorem exists_resolveModule (hp : pool.graph.FiltersParse) (A : List ModuleId) :
    ∀ s id, ∃ r, resolveModule pool A s id = .ok r := by
  induction A using entering_induction pool.graph with
  | step A ih =>
    intro s id
    unfold resolveModule
    split
    · exact ⟨_, rfl⟩
    · next hid =>
      split
      · exact ⟨_, rfl⟩
      · next m hm =>
        obtain ⟨⟨p, t⟩, hw⟩ := exists_wireAll (ih id (mem_ids_of_get? hm) fun h => hid (.inr h))
          (fun r hr => Pool.exists_providers hp hm hr) (id :: A) id s
        simp only [hw, bind, Except.bind, pure, Except.pure]
        split
        · exact ⟨_, rfl⟩
        · exact ⟨_, rfl⟩

end StartOrder.Wiring
