import Mathlib.Data.List.Induction
import StartOrder.Proofs.Order.Movement

/-!
# Providers in cycles

A module that is moved while its own providers are being placed is not placed again, so in a
cycle it may be moved away from under providers that have been placed by then. What is placed
last stays: a provider that does not depend on its requirer comes before it, when none of the
providers that are placed behind it leads back to the requirer.

## Main definitions

* `Placement.Clear providers m p`: neither `p` nor a provider behind it leads back to `m`

## Main results

* `Placement.place_clear`: placing any module keeps clear providers first, and placing their
  requirer puts them first
* `Placement.precedes_foldl_add`: after all entries have been added, clear providers come first
* `Placement.providersOf_foldl_add`, `Placement.exists_split_of_precedes`: which providers are
  placed behind each other
-/

namespace StartOrder.Placement

open Relation (TransGen)
open Wiring (Wire Entry)

variable {providers : List (ModuleId × List ModuleId)} {o : List ModuleId}
  {id p q m x y : ModuleId} {ps : List ModuleId} {enter : Pass → ModuleId → Pass} {s : Pass}

/-- A provider does not depend on its requirer, nor does any provider that is placed behind it. -/
structure Clear (providers : List (ModuleId × List ModuleId)) (m p : ModuleId) : Prop where
  forward : ¬ TransGen (Known providers) p m
  behind : ∀ q, Precedes (providersOf providers m) p q → ¬ TransGen (Known providers) q m

/-! ## Placing the requirer -/

namespace Moves

/-- Putting one provider before a module leaves behind it what the provider does not depend on. -/
theorem placeOne_kept (h : Moves providers enter) (hne : p ≠ id) (ho : s.order.Nodup)
    (hxy : Precedes s.order x y) (hy : y ≠ p) (hback : ¬ TransGen (Known providers) p y) :
    Precedes (placeOne enter id s p).order x y := by
  generalize ht : placeOne enter id s p = t
  have hstep : PlacesOne enter id s p t := ht ▸ placesOne hne
  cases hstep with
  | absent | stays => exact hxy
  | enters => exact (h s p ho).kept x y hxy hback
  | @moves s' hput hahead =>
    exact (h s' p (hput.nodup ho)).kept x y (hput.precedes_of_ne ho hahead hxy hy) hback

/-- A provider that does not depend on its requirer has been put before it. -/
theorem placeOne_first (h : Moves providers enter) (hne : p ≠ id) (ho : s.order.Nodup)
    (hid : id ∈ s.order) (hback : ¬ TransGen (Known providers) p id) :
    Precedes (placeOne enter id s p).order p id := by
  generalize ht : placeOne enter id s p = t
  have hstep : PlacesOne enter id s p t := ht ▸ placesOne hne
  cases hstep with
  | absent hnone => exact absurd hid hnone
  | stays hfirst => exact hfirst
  | enters hfirst => exact (h s p ho).kept p id hfirst hback
  | @moves s' hput _ => exact (h s' p (hput.nodup ho)).kept p id hput.precedes_target hback

/-- Providers that do not depend on the module leave before it what is before it. -/
theorem placeEach_kept (h : Moves providers enter) (hps : ∀ q ∈ ps, q ≠ id)
    (hback : ∀ q ∈ ps, ¬ TransGen (Known providers) q id) (hknown : ∀ q ∈ ps, Known providers id q)
    (ho : s.order.Nodup) (hx : Precedes s.order x id) :
    Precedes (placeEach enter id s ps).order x id := by
  induction ps generalizing s with
  | nil => exact hx
  | cons q ps ih =>
    rw [List.forall_mem_cons] at hps hback hknown
    have hone := h.placeOne_moved hps.1 hknown.1 ho
    have hkept := h.placeOne_kept hps.1 ho hx hps.1.symm hback.1
    rw [placeEach_cons]
    exact ih hps.2 hback.2 hknown.2 hone.nodup hkept

/-- **Placing a module puts its clear providers before it.** -/
theorem placeEach_first (h : Moves providers enter) (hirrefl : Irreflexive providers)
    (hp : Known providers m p) (hclear : Clear providers m p) (ho : s.order.Nodup)
    (hm : m ∈ s.order) : Precedes (placeEach enter m s (providersOf providers m)).order p m := by
  have hne {q} (hq : Known providers m q) : q ≠ m := fun heq => hirrefl m (heq ▸ hq)
  obtain ⟨pre, post, hsplit⟩ := List.append_of_mem hp
  have hknown : ∀ q ∈ pre ++ p :: post, Known providers m q := fun q hq => by
    rwa [Known, hsplit]
  have hpost : ∀ q ∈ post, Precedes (providersOf providers m) p q := by
    intro q hq
    rw [hsplit, precedes_append, precedes_cons]
    exact .inr (.inl (.inl ⟨rfl, hq⟩))
  rw [List.forall_mem_append, List.forall_mem_cons] at hknown
  rw [hsplit, placeEach_append, placeEach_cons]
  -- First come the providers before `p`, then `p`, and then those that do not lead back.
  have hpre := h.placeEach_moved hirrefl hknown.1 ho
  have hone := h.placeOne_moved (hne hp) hp hpre.nodup
  refine h.placeEach_kept (fun q hq => hne (hknown.2.2 q hq))
    (fun q hq => hclear.behind q (hpost q hq)) hknown.2.2 hone.nodup ?_
  exact h.placeOne_first (hne hp) hpre.nodup (hpre.subset hm) hclear.forward

end Moves

/-! ## Placing any module -/

/-- What holds of all searches for the providers of a module: when `m` itself is placed, and when
`p` is before it, `p` is before it afterwards. -/
def Restores (enter : Pass → ModuleId → Pass) (m p : ModuleId) : Prop :=
  ∀ (s : Pass) (id : ModuleId), s.order.Nodup → m ∈ s.order →
    id = m ∨ Precedes s.order p m → Precedes (enter s id).order p m

theorem Restores.placeOne (h : Restores enter m p) (hne : q ≠ id) (ho : s.order.Nodup)
    (hfirst : Precedes s.order p m) : Precedes (placeOne enter id s q).order p m := by
  generalize ht : Placement.placeOne enter id s q = t
  have hstep : PlacesOne enter id s q t := ht ▸ placesOne hne
  cases hstep with
  | absent | stays => exact hfirst
  | enters => exact h s q ho hfirst.mem_right (.inr hfirst)
  | @moves s' hput hback =>
    refine h s' q (hput.nodup ho) (hput.mem_iff.2 (.inr hfirst.mem_right)) ?_
    by_cases hq : q = m
    · exact .inl hq
    · exact .inr (hput.precedes_of_ne ho hback hfirst (Ne.symm hq))

theorem Restores.placeEach (h : Restores enter m p) (hmoves : Moves providers enter)
    (hirrefl : Irreflexive providers) (hps : ∀ q ∈ ps, Known providers id q)
    (ho : s.order.Nodup) (hfirst : Precedes s.order p m) :
    Precedes (placeEach enter id s ps).order p m := by
  induction ps generalizing s with
  | nil => exact hfirst
  | cons q ps ih =>
    rw [List.forall_mem_cons] at hps
    have hne : q ≠ id := fun heq => hirrefl id (heq ▸ hps.1)
    have hone := hmoves.placeOne_moved hne hps.1 ho
    rw [placeEach_cons]
    exact ih hps.2 hone.nodup (h.placeOne hne ho hfirst)

/-- **Placing any module keeps clear providers first**, as long as the requirer is not among the
modules that are being placed. -/
theorem place_clear (hirrefl : Irreflexive providers) (hp : Known providers m p)
    (hclear : Clear providers m p) (path : List ModuleId) (hpath : m ∉ path) :
    Restores (place providers path) m p := by
  induction path using entering_induction providers with
  | step path ih =>
    intro s id ho hm hfirst
    unfold place
    split
    · next hid => exact hfirst.resolve_left fun heq => hpath (heq ▸ hid)
    · next hid =>
      split
      · next hnone =>
        refine hfirst.resolve_left fun heq => ?_
        subst heq
        simp [Known, providersOf, hnone] at hp
      · next ps hps =>
        have hknown : providersOf providers id = ps := by rw [providersOf, hps, Option.getD_some]
        have hmoves := place_moved hirrefl (id :: path)
        rw [← hknown]
        by_cases heq : id = m
        · subst heq
          exact hmoves.placeEach_first hirrefl hp hclear ho hm
        · -- The requirer may still be met below, since it is not on the longer path either.
          have hnew : m ∉ id :: path := by
            rw [List.mem_cons, not_or]
            exact ⟨Ne.symm heq, hpath⟩
          have hrestores := ih id (mem_map_fst_of_lookup hps) hid hnew
          exact hrestores.placeEach hmoves hirrefl (fun q hq => hq) ho (hfirst.resolve_left heq)

/-! ## Adding entries -/

section Adding

variable {P : Placement} {e : Entry} {es : List Entry} {known : List ModuleId} {w : Wire}
  {ws : List Wire}

theorem addProviders_snoc : addProviders known (ws ++ [w]) =
    if w.isSelf = true ∨ w.provider ∈ addProviders known ws then addProviders known ws
    else addProviders known ws ++ [w.provider] := by
  unfold addProviders
  rw [List.filter_append, List.foldl_append]
  cases hw : w.isSelf <;> simp [hw]

/-- Providers that are known keep their places in front. -/
theorem prefix_addProviders : known <+: addProviders known ws := by
  induction ws using List.reverseRecOn with
  | nil => exact List.prefix_rfl
  | append_singleton ws w ih =>
    rw [addProviders_snoc]
    split
    · exact ih
    · exact ih.trans (List.prefix_append _ _)

/-- Wires that have been added add nothing when they come again. -/
theorem addProviders_self : addProviders (addProviders known ws) ws = addProviders known ws := by
  have hmem {w} (hw : w ∈ ws) (hself : w.isSelf = false) : w.provider ∈ addProviders known ws :=
    mem_addProviders.2 (.inr ⟨w, hw, hself, rfl⟩)
  generalize addProviders known ws = known' at hmem
  induction ws using List.reverseRecOn with
  | nil => rfl
  | append_singleton ws w ih =>
    rw [addProviders_snoc, ih fun hw => hmem (List.mem_append_left _ hw)]
    cases hself : w.isSelf with
    | true => simp
    | false => simp [hmem (List.mem_append_right _ (List.mem_singleton_self w)) hself]

theorem providersOf_add : providersOf (add P e).providers m =
    if m = e.1 then addProviders (providersOf P.providers m) e.2
    else providersOf P.providers m := by
  simp only [add, providersOf, lookup_record]
  split <;> rfl

theorem prefix_providersOf_add :
    providersOf P.providers m <+: providersOf (add P e).providers m := by
  rw [providersOf_add]
  split
  · exact prefix_addProviders
  · exact List.prefix_rfl

theorem prefix_providersOf_foldl_add :
    providersOf P.providers m <+: providersOf (es.foldl add P).providers m := by
  induction es generalizing P with
  | nil => exact List.prefix_rfl
  | cons e es ih => exact prefix_providersOf_add.trans ih

/-- A provider that is clear in the end has been so all the time. -/
theorem Clear.of_foldl_add (h : Clear (es.foldl add P).providers m p) : Clear P.providers m p := by
  have hmono : ∀ {x y}, TransGen (Known P.providers) x y →
      TransGen (Known (es.foldl add P).providers) x y :=
    TransGen.mono (fun _ _ hk => known_foldl_add.2 (.inl hk)) _ _
  constructor
  · exact fun hpm => h.forward (hmono hpm)
  · intro q hq hqm
    exact h.behind q (hq.mono prefix_providersOf_foldl_add.sublist) (hmono hqm)

/-- Adding an entry puts the clear providers of its module first, and keeps those of others. -/
theorem precedes_add (ho : P.order.Nodup) (hirrefl : Irreflexive (add P e).providers)
    (hclear : Clear (add P e).providers m p) (hfirst : Known P.providers m p → Precedes P.order p m)
    (hp : Known (add P e).providers m p) : Precedes (add P e).order p m := by
  obtain ⟨o, hnodup, hsub, hmem, horder, -⟩ := add_moved ho hirrefl
  rw [horder]
  have hrestores := place_clear hirrefl hp hclear [] List.not_mem_nil
  rcases known_add.1 hp with hold | ⟨heq, -⟩
  · have hbefore : Precedes o p m := (hfirst hold).mono hsub
    exact hrestores ⟨o, []⟩ e.1 hnodup hbefore.mem_right (.inr hbefore)
  · exact hrestores ⟨o, []⟩ e.1 hnodup ((hmem m).2 (.inr heq.symm)) (.inl heq)

/-- **Clear providers come first**, whatever cycles there are among other modules. -/
theorem precedes_foldl_add (ho : P.order.Nodup) (hirrefl : Irreflexive (es.foldl add P).providers)
    (hclear : Clear (es.foldl add P).providers m p)
    (hfirst : Known P.providers m p → Precedes P.order p m)
    (hp : Known (es.foldl add P).providers m p) : Precedes (es.foldl add P).order p m := by
  induction es generalizing P with
  | nil => exact hfirst hp
  | cons e es ih =>
    rw [List.foldl_cons] at hirrefl hclear hp ⊢
    obtain ⟨o, -, -, -, -, hmoved⟩ := add_moved (e := e) ho hirrefl.of_foldl_add
    refine ih hmoved.nodup hirrefl hclear ?_ hp
    exact precedes_add ho hirrefl.of_foldl_add hclear.of_foldl_add hfirst

/-! ## The order of providers -/

/-- When all entries of a module have the same wires, its providers are those of the wires. -/
theorem providersOf_foldl_add (hws : ∀ e ∈ es, e.1 = m → e.2 = ws) :
    providersOf (es.foldl add {}).providers m = [] ∨
      providersOf (es.foldl add {}).providers m = addProviders [] ws := by
  induction es using List.reverseRecOn with
  | nil => exact .inl rfl
  | append_singleton es e ih =>
    have hold := ih fun e he => hws e (List.mem_append_left _ he)
    rw [List.foldl_append, List.foldl_cons, List.foldl_nil, providersOf_add]
    split
    · next hm =>
      right
      rw [hws e (List.mem_append_right _ (List.mem_singleton_self e)) hm.symm]
      rcases hold with hold | hold
      · rw [hold]
      · rw [hold, addProviders_self]
    · exact hold

/-- A provider that is placed behind another is met for the first time when the wires have led to
the other one. -/
theorem exists_split_of_precedes (h : Precedes (addProviders [] ws) p q) :
    ∃ ws₁ w ws₂, ws = ws₁ ++ w :: ws₂ ∧ p ∈ addProviders [] ws₁ ∧ q ∉ addProviders [] ws₁ ∧
      w.isSelf = false ∧ w.provider = q := by
  induction ws using List.reverseRecOn with
  | nil => cases h
  | append_singleton ws w ih =>
    have hold (h : Precedes (addProviders [] ws) p q) : ∃ ws₁ v ws₂, ws ++ [w] = ws₁ ++ v :: ws₂ ∧
        p ∈ addProviders [] ws₁ ∧ q ∉ addProviders [] ws₁ ∧ v.isSelf = false ∧ v.provider = q := by
      obtain ⟨ws₁, v, ws₂, rfl, hv⟩ := ih h
      exact ⟨ws₁, v, ws₂ ++ [w], by simp, hv⟩
    rw [addProviders_snoc] at h
    split at h
    · exact hold h
    · next hnew =>
      rw [not_or] at hnew
      rcases precedes_snoc.1 h with h | ⟨hp, rfl⟩
      · exact hold h
      · exact ⟨ws, w, [], rfl, hp, hnew.2, eq_false_of_ne_true hnew.1, rfl⟩

end Adding

end StartOrder.Placement
