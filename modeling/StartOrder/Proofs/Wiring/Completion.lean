import StartOrder.Proofs.Order.Precedence
import StartOrder.Proofs.Wiring.Resolution

/-!
# The order of completion

A resolution lists modules in the order in which they were completed. When a module is wired, its
provider has been completed by then or is in progress. In the second case the module is resolved
on behalf of the provider, so that in the end wires lead from the provider to the module: a wire
to a module that is completed later closes a circle. Without circles the modules of a resolution
come behind all of their providers.

What is in progress belongs to the search and cannot be seen in the resolution. Therefore the
entries that a search adds are looked at above a set `K` of modules, which holds what is completed
before and what is in progress. A module leaves `K` when it is completed, and then it reaches
everything that has been added for it.

## Main definitions

* `Closes K new`: wires of the entries `new` lead to `K`, to earlier entries, or close a circle
* `Attempt.Closes A attempt`: what a search adds with the modules `A` in progress is of this kind

## Main results

* `Chooses.adds`: what a choice adds comes from a single attempt
* `Closes.append`, `Closes.complete`: what adding entries, and completing a module keeps
* `precedes_or_reaches_of_resolve`: a provider is completed first, or it leads back
-/

namespace StartOrder.Wiring

open Relation (ReflTransGen TransGen)

variable {pool : Pool} {K : Set ModuleId} {A : List ModuleId} {s t : Session}
  {new new' : Resolution} {id m p : ModuleId} {attempt : Attempt} {ids : List ModuleId}
  {res : Resolution}

/-! ## Entries above a set of modules -/

/-- A wire of the entries `new` leads to `K` or to an earlier entry, or wires of `new` lead from
its provider back to its module. -/
def Closes (K : Set ModuleId) (new : Resolution) : Prop :=
  ∀ pre e post, new = pre ++ e :: post → ∀ w ∈ e.2,
    w.provider ∈ K ∪ Members pre ∨ ReflTransGen (Leads new) w.provider e.1

namespace Closes

theorem nil : Closes K [] := by
  intro pre e post h
  cases pre <;> cases h

theorem append (h : Closes K new) (h' : Closes (K ∪ Members new) new') :
    Closes K (new ++ new') := by
  intro pre e post hsplit w hw
  rcases List.append_eq_append_iff.1 hsplit with ⟨pre', rfl, hnew'⟩ | ⟨post', hnew, hpost⟩
  · rcases h' pre' e post hnew' w hw with hbefore | hback
    · left
      rwa [members_append, ← Set.union_assoc]
    · exact .inr (reaches_mono (List.subset_append_right _ _) hback)
  · cases post' with
    | nil =>
      obtain rfl : new' = e :: post := by simpa using hpost.symm
      obtain rfl : new = pre := by simpa using hnew
      rcases h' [] e post rfl w hw with hbefore | hback
      · left
        simpa [Members] using hbefore
      · exact .inr (reaches_mono (List.subset_append_right _ _) hback)
    | cons e' post' =>
      obtain ⟨rfl, -⟩ := List.cons.inj hpost
      rcases h pre e post' hnew w hw with hbefore | hback
      · exact .inl hbefore
      · exact .inr (reaches_mono (List.subset_append_left _ _) hback)

/-- The module in progress under which entries were made is completed. It reaches all of them, so
that wires to it close a circle. -/
theorem complete {ws : List Wire} (h : Closes (K ∪ {id}) new)
    (hws : ∀ w ∈ ws, w.provider ∈ K ∪ {id} ∪ Members new)
    (hreach : ∀ q ∈ Members new, ∃ w ∈ ws, ReflTransGen (Leads new) w.provider q) :
    Closes K (new ++ [(id, ws)]) := by
  have hall : ∀ q ∈ Members (new ++ [(id, ws)]),
      ReflTransGen (Leads (new ++ [(id, ws)])) id q := reaches_complete hreach
  intro pre e post hsplit w hw
  rcases List.eq_nil_or_concat post with rfl | ⟨post, last, rfl⟩
  · obtain ⟨rfl, he⟩ := List.append_inj' hsplit rfl
    obtain rfl := List.singleton_inj.1 he
    rcases hws w hw with (hK | hid) | hnew
    · exact .inl (.inl hK)
    · right
      rw [Set.mem_singleton_iff.1 hid]
    · exact .inl (.inr hnew)
  · rw [List.concat_eq_append, ← List.cons_append, ← List.append_assoc] at hsplit
    obtain ⟨rfl, -⟩ := List.append_inj' hsplit rfl
    rcases h pre e post rfl w hw with (hK | hid) | hback
    · rcases hK with hK | hid
      · exact .inl (.inl hK)
      · right
        rw [Set.mem_singleton_iff.1 hid]
        refine hall e.1 ?_
        simp [Members]
    · exact .inl (.inr hid)
    · exact .inr (reaches_mono (List.subset_append_left _ _) hback)

end Closes

/-! ## Searches -/

/-- **What a choice adds comes from a single attempt.** Nothing is left of the attempts before it
but failures that have been remembered. -/
theorem Chooses.adds {permanent : Bool} {cs : List Capability} {o : Choice}
    (h : Chooses attempt A id permanent s cs o t) :
    (∃ failed, t = { s with failed }) ∨
      ∃ failed p, attempt { s with failed } p = .ok (none, t) := by
  induction h with
  | @exhausted _ s | @settled _ s => exact .inl ⟨s.failed, rfl⟩
  | unowned _ _ ih | remembered _ _ _ _ ih => exact ih
  | @completed _ s _ _ _ p _ _ _ hp => exact .inr ⟨s.failed, p, hp⟩
  -- After a failed attempt the rest starts from the state before it, failures apart.
  | failed _ _ _ _ _ _ ih => exact ih

/-- What a successful search adds is above the modules that were completed or in progress. -/
def Attempt.Closes (A : List ModuleId) (attempt : Attempt) : Prop :=
  ∀ ⦃s id t new⦄, attempt s id = .ok (none, t) → s.Extends t new →
    Wiring.Closes (s.settled A) new

namespace Attempt.Closes

theorem choose_closes (hc : Attempt.Correct pool ∅ A attempt) (h : Attempt.Closes A attempt)
    {permanent : Bool} {cs : List Capability} {o : Choice}
    (hchoose : choose attempt A id permanent s cs = .ok (o, t)) (hext : s.Extends t new) :
    Wiring.Closes (s.settled A) new := by
  rcases (hc.chooses hchoose).adds with ⟨failed, rfl⟩ | ⟨failed, p, hp⟩
  · obtain rfl : new = [] := List.append_right_eq_self.1 hext.resolved.symm
    exact .nil
  · cases hc hp (Session.avoids_empty _) with
    | @completed _ new' _ hext' _ _ _ =>
      obtain rfl : new = new' :=
        List.append_cancel_left (hext.resolved.symm.trans hext'.resolved)
      have hclosed := h hp hext'
      exact hclosed

theorem wireAll_closes (hc : Attempt.Correct pool ∅ A attempt) (h : Attempt.Closes A attempt)
    (hid : id ∈ A) {rs : List Requirement} {p : Progress}
    (hwire : wireAll pool attempt A id s rs = .ok (p, t)) (hext : s.Extends t new) :
    Wiring.Closes (s.settled A) new := by
  induction rs generalizing s p new with
  | nil =>
    obtain ⟨-, rfl⟩ := Prod.mk.inj (Except.ok.inj hwire)
    obtain rfl := hext.unique (.refl s)
    exact .nil
  | cons r rs ih =>
    cases heff : r.isEffective with
    | false =>
      simp only [wireAll, heff, Bool.false_eq_true, ↓reduceIte] at hwire
      exact ih hwire hext
    | true =>
      obtain ⟨cs, o, u, q, -, hchoose, hrest, rfl⟩ := wireAll_cons_ok heff hwire
      obtain ⟨-, first, hfirst, -⟩ := hc.choose_correct hid hchoose s.avoids_empty
      obtain ⟨-, rest, hlater, -⟩ := hc.wireAll_correct hid hrest u.avoids_empty
      obtain rfl := hext.unique (hfirst.trans hlater)
      refine (h.choose_closes hc hchoose hfirst).append ?_
      rw [← hfirst.settled_eq]
      exact ih hrest hlater

end Attempt.Closes

theorem resolveModule_closes (pool : Pool) (A : List ModuleId) :
    Attempt.Closes A (resolveModule pool A) := by
  have hcorrect (A : List ModuleId) : Attempt.Correct pool ∅ A (resolveModule pool A) :=
    resolveModule_correct A fun _ h => h.elim
  induction A using entering_induction pool.graph with
  | step A ih =>
    intro s id t new h hext
    cases ends_of_resolveModule h with
    | settled hid =>
      obtain rfl := hext.unique (.refl s)
      exact .nil
    | complete hid hm hw hopen =>
      have hA : id ∈ id :: A := List.mem_cons_self
      obtain ⟨-, below, hbelow, -, hwired, hreach⟩ :=
        (hcorrect (id :: A)).wireAll_correct hA hw s.avoids_empty
      obtain rfl := hext.unique (hbelow.complete _ _)
      have hclosed := (ih id (mem_ids_of_get? hm) fun h => hid (.inr h)).wireAll_closes
        (hcorrect (id :: A)) hA hw hbelow
      rw [Session.settled_cons] at hclosed
      refine hclosed.complete (fun w hw => ?_) hreach
      rw [← Session.settled_cons, ← hbelow.settled_eq]
      exact hwired.provider_mem hw

/-! ## Resolutions -/

theorem resolveFrom_closes (h : resolveFrom pool s ids = .ok t) (hext : s.Extends t new) :
    Closes (s.settled []) new := by
  induction ids generalizing s new with
  | nil =>
    obtain rfl := Except.ok.inj h
    obtain rfl := hext.unique (.refl s)
    exact .nil
  | cons id ids ih =>
    unfold resolveFrom at h
    split at h
    · cases h
    · cases h
    · next u hu =>
      cases resolveModule_correct [] (fun _ h => h.elim) hu s.avoids_empty with
      | completed _ hfirst _ _ _ =>
        obtain ⟨rest, hrest, -⟩ := resolveFrom_correct (S := ∅) (fun _ h => h.elim) h u.avoids_empty
        obtain rfl := hext.unique (hfirst.trans hrest)
        refine (resolveModule_closes pool [] hu hfirst).append ?_
        rw [← hfirst.settled_eq]
        exact ih h hrest

/-- The wires of a resolution lead to earlier entries or close a circle. -/
theorem closes_of_resolve (h : resolve pool ids = .ok res) : Closes ∅ res := by
  obtain ⟨t, ht, rfl⟩ := map_eq_ok_iff.1 h
  obtain ⟨new, hext, -⟩ := resolveFrom_correct (S := ∅) (fun _ h => h.elim) ht
    (Session.avoids_empty _)
  have hclosed := resolveFrom_closes ht hext
  have hempty : ({} : Session).settled [] = ∅ := by simp [Session.settled_empty]
  rw [hempty] at hclosed
  rwa [hext.resolved, List.nil_append]

/-- A wire leads from the one module to the other, which is another module. -/
def LeadsAway (res : Resolution) (m p : ModuleId) : Prop :=
  Leads res m p ∧ p ≠ m

/-- A chain of wires between two modules does not need wires of modules to themselves. -/
theorem reaches_away (h : ReflTransGen (Leads res) m p) : ReflTransGen (LeadsAway res) m p := by
  induction h with
  | refl => exact .refl
  | @tail q p _ hlead ih =>
    by_cases hpq : p = q
    · rwa [hpq]
    · exact ih.tail ⟨hlead, hpq⟩

/-- **A provider is completed first, or it leads back.** Every module has one entry, and that of a
provider stands before that of the module which is wired to it, unless a chain of wires leads from
the provider back to the module. So all providers stand first when no wires lead in a circle,
those from a module to itself apart. -/
theorem precedes_or_reaches_of_resolve (h : resolve pool ids = .ok res) :
    (res.map Prod.fst).Nodup ∧
      (∀ m p, Leads res m p → p ≠ m →
        Precedes (res.map Prod.fst) p m ∨ TransGen (Leads res) p m) ∧
      ((∀ m, ¬ TransGen (LeadsAway res) m m) →
        ∀ m p, Leads res m p → p ≠ m → Precedes (res.map Prod.fst) p m) := by
  have hwire {m p} (hlead : Leads res m p) (hne : p ≠ m) :
      Precedes (res.map Prod.fst) p m ∨ ReflTransGen (Leads res) p m := by
    obtain ⟨ws, hws, w, hw, rfl⟩ := hlead
    obtain ⟨pre, post, hsplit⟩ := List.append_of_mem hws
    rcases closes_of_resolve h pre (m, ws) post hsplit w hw with (hnone | hpre) | hback
    · exact hnone.elim
    · left
      rw [hsplit, List.map_append, List.map_cons]
      exact precedes_append.2 (.inr (.inr ⟨hpre, List.mem_cons_self⟩))
    · exact .inr hback
  obtain ⟨hbatch, -⟩ := resolve_correct (S := ∅) (fun _ h => h.elim) h
  refine ⟨hbatch.nodup, ?_, ?_⟩
  · intro m p hlead hne
    refine (hwire hlead hne).imp_right fun hback => ?_
    exact (Relation.reflTransGen_iff_eq_or_transGen.1 hback).resolve_left hne.symm
  · intro hacyclic m p hlead hne
    refine (hwire hlead hne).resolve_right fun hback => ?_
    exact hacyclic m (.head' ⟨hlead, hne⟩ (reaches_away hback))

/-- The server is completed before the client to which it is wired, and the client leads back. -/
theorem precedes_or_reaches_of_resolve_crossed : ∃ res, resolve crossedPool [2] = .ok res ∧
    res.map Prod.fst = [1, 2] ∧ Leads res 1 2 ∧ TransGen (Leads res) 2 1 := by
  obtain ⟨res, h, hres⟩ := exists_eq_ok_of_map (show
    (resolve crossedPool [2]).toOption.map (fun res => decide (res.map Prod.fst = [1, 2] ∧
      ∃ e ∈ res, e.1 = 1 ∧ ∃ w ∈ e.2, w.provider = 2)) = some true by decide +kernel)
  obtain ⟨hids, ⟨_, ws⟩, hws, rfl, w, hw, hprovider⟩ := of_decide_eq_true hres
  have hlead : Leads res 1 2 := ⟨ws, hws, w, hw, hprovider⟩
  refine ⟨res, h, hids, hlead, ?_⟩
  have hor := (precedes_or_reaches_of_resolve h).2.1 1 2 hlead (by decide)
  refine hor.resolve_left fun hbefore => ?_
  rw [hids] at hbefore
  unfold Precedes at hbefore
  exact absurd hbefore (by decide)

end StartOrder.Wiring
