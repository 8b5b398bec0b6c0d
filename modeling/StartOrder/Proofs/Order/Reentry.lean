import StartOrder.Proofs.Order.Movement

/-!
# Modules that need not be placed again

When the providers of a module have been placed, it is marked, and it is left aside from then on
unless it moves. But the modules on which it depends may move later on, from under the providers
that they have in turn, and this does not take its mark away. What makes this harmless is that a
module that moves is being placed, or is placed, as soon as it has moved. So whenever a mark is
relied on, everything on which the marked module depends is settled, except for modules that are
being placed at this time; and on these it does not depend, as long as there are no cycles. Where
everything is settled, placing a module again changes nothing.

## Main definitions

* `Placement.placeAfresh`: placements that enter every provider
* `Placement.SettledBelow`: a module and all modules on which it depends are settled
* `Placement.Trusted providers busy s`: below the marked modules of a pass all modules but those of
  `busy` are settled

## Main results

* `Placement.placeAfresh_of_settledBelow`: placing a module changes nothing where all is settled
* `Placement.place_replaces`: what one placement leaves behind
* `Placement.place_eq_placeAfresh`: it makes no difference that marked modules are left aside
-/

namespace StartOrder.Placement

open Relation (ReflTransGen TransGen)

variable {providers : List (ModuleId × List ModuleId)} {o o' : List ModuleId}
  {id p x : ModuleId} {ps path busy : List ModuleId} {s : Pass}

/-! ## Placements that enter every provider -/

/-- Put one provider before a module, and enter it in any case. -/
def reenterOne (enter : List ModuleId → ModuleId → List ModuleId) (requirer : ModuleId)
    (o : List ModuleId) (p : ModuleId) : List ModuleId :=
  match moveBefore? o requirer p with
  | none => o
  | some (o, _) => enter o p

/-- Put every known provider of a module before it, and so on for the providers, whether or not
the providers of these have been placed. The modules on the path are left alone. -/
def placeAfresh (providers : List (ModuleId × List ModuleId)) (path : List ModuleId) :
    List ModuleId → ModuleId → List ModuleId := fun o id =>
  if _entered : id ∈ path then o
  else
    match _known : providers.lookup id with
    | none => o
    | some ps => ps.foldl (reenterOne (placeAfresh providers (id :: path)) id) o
termination_by (unentered providers path).length
decreasing_by exact unentered_cons_lt (mem_map_fst_of_lookup _known) _entered

/-! ## The known providers of one module -/

theorem Known.exists_mem (h : Known providers id p) : ∃ ps, (id, ps) ∈ providers ∧ p ∈ ps := by
  cases hlookup : providers.lookup id with
  | none => simp [Known, providersOf, hlookup] at h
  | some ps =>
    rw [Known, providersOf, hlookup, Option.getD_some] at h
    obtain ⟨before, behind, rfl, -⟩ := List.lookup_eq_some_iff.1 hlookup
    exact ⟨ps, List.mem_append_right before List.mem_cons_self, h⟩

theorem Known.mem_map_fst (h : Known providers id p) : id ∈ providers.map Prod.fst := by
  obtain ⟨ps, hmem, -⟩ := h.exists_mem
  exact List.mem_map_of_mem hmem

/-- When the providers of every module have higher places, no module depends on itself. -/
theorem acyclic_of_forall_lt (h : ∀ e ∈ providers, ∀ p ∈ e.2, e.1 < p) (m : ModuleId) :
    ¬ TransGen (Known providers) m m := by
  intro hm
  have hlt : TransGen (· < ·) m m := by
    refine TransGen.mono ?_ _ _ hm
    intro x p hp
    obtain ⟨ps, hmem, hps⟩ := Known.exists_mem hp
    exact h (x, ps) hmem p hps
  rw [Relation.transGen_eq_self] at hlt
  exact Nat.lt_irrefl m hlt

theorem place_of_notMem (hid : id ∉ path) :
    place providers path s id =
      { placeEach (place providers (id :: path)) id s (providersOf providers id) with
        checked := id :: (placeEach (place providers (id :: path)) id s
          (providersOf providers id)).checked } := by
  rw [place, dif_neg hid]
  split
  · next hnone =>
    rw [providersOf, hnone, Option.getD_none]
    rfl
  · next ps hps => rw [providersOf, hps, Option.getD_some]

theorem placeAfresh_of_notMem (hid : id ∉ path) :
    placeAfresh providers path o id =
      (providersOf providers id).foldl (reenterOne (placeAfresh providers (id :: path)) id) o := by
  rw [placeAfresh, dif_neg hid]
  split
  · next hnone =>
    rw [providersOf, hnone, Option.getD_none]
    rfl
  · next ps hps => rw [providersOf, hps, Option.getD_some]

/-! ## Modules below which all is settled -/

/-- A module comes behind its known providers, and so do all modules on which it depends. -/
def SettledBelow (providers : List (ModuleId × List ModuleId)) (o : List ModuleId) (m : ModuleId) :
    Prop :=
  ∀ x, ReflTransGen (Known providers) m x → Settled providers o x

theorem SettledBelow.of_known (h : SettledBelow providers o id) (hp : Known providers id p) :
    SettledBelow providers o p :=
  fun x hx => h x (.head hp hx)

theorem settledBelow_of_known (hid : Settled providers o id)
    (h : ∀ p, Known providers id p → SettledBelow providers o p) : SettledBelow providers o id := by
  intro x hx
  rcases ReflTransGen.cases_head hx with rfl | ⟨p, hp, hx⟩
  · exact hid
  · exact h p hp x hx

theorem Placed.settledBelow (h : Placed providers id ps o o') (hx : SettledBelow providers o x) :
    SettledBelow providers o' x :=
  fun y hy => h.settled y (hx y hy)

/-- A provider that comes first stays where it is. -/
theorem moveBefore?_of_precedes (ho : o.Nodup) (hfirst : Precedes o p id) :
    moveBefore? o id p = some (o, false) := by
  have hne : p ≠ id := hfirst.ne ho
  obtain ⟨⟨o', moved⟩, hmove⟩ :=
    Option.isSome_iff_exists.1 (moveBefore?_isSome (p := p) hfirst.mem_right)
  rcases putBefore_of_moveBefore? hne hmove with ⟨rfl, rfl, -⟩ | ⟨-, -, hback⟩
  · exact hmove
  · have hself := Precedes.trans ho hfirst (hback hfirst.mem_left)
    exact absurd rfl (hself.ne ho)

theorem foldl_eq_self {α β : Type} {f : β → α → β} {b : β} {as : List α}
    (h : ∀ a ∈ as, f b a = b) : as.foldl f b = b := by
  induction as with
  | nil => rfl
  | cons a as ih =>
    rw [List.forall_mem_cons] at h
    rw [List.foldl_cons, h.1]
    exact ih h.2

/-- **Placing a module again changes nothing** where everything on which it depends is settled. -/
theorem placeAfresh_of_settledBelow (ho : o.Nodup) (path : List ModuleId) :
    ∀ id, SettledBelow providers o id → placeAfresh providers path o id = o := by
  induction path using entering_induction providers with
  | step path ih =>
    intro id hid
    by_cases hnew : id ∈ path
    · rw [placeAfresh, dif_pos hnew]
    · -- No provider has to be moved, and entering it changes nothing by induction.
      have hone : ∀ p ∈ providersOf providers id,
          reenterOne (placeAfresh providers (id :: path)) id o p = o := by
        intro p (hp : Known providers id p)
        rw [reenterOne, moveBefore?_of_precedes ho (hid id .refl p hp)]
        exact ih id hp.mem_map_fst hnew p (hid.of_known hp)
      rw [placeAfresh_of_notMem hnew]
      exact foldl_eq_self hone

/-! ## Marks that can be relied on -/

/-- All modules below marked ones are settled, except for those that are being placed. -/
def Trusted (providers : List (ModuleId × List ModuleId)) (busy : List ModuleId) (s : Pass) :
    Prop :=
  ∀ m ∈ s.checked, ∀ x, ReflTransGen (Known providers) m x → x ∉ busy →
    Settled providers s.order x

/-- A marked module can be relied on when it does not depend on one that is being placed. -/
theorem Trusted.settledBelow (h : Trusted providers busy s) (hp : p ∈ s.checked)
    (hbusy : ∀ b ∈ busy, ¬ ReflTransGen (Known providers) p b) :
    SettledBelow providers s.order p :=
  fun x hx => h p hp x hx fun hmem => hbusy x hmem hx

theorem Trusted.cons (h : Trusted providers busy s) (p : ModuleId) :
    Trusted providers (p :: busy) s :=
  fun m hm x hx hnew => h m hm x hx fun hmem => hnew (List.mem_cons_of_mem p hmem)

/-- When a module is moved forward, only this one has to be placed again. -/
theorem Trusted.of_putBefore (ho : s.order.Nodup) (h : Trusted providers busy s)
    (hput : PutBefore s.order p id o') (hback : p ∈ s.order → Precedes s.order id p)
    {checked : List ModuleId} (hchecked : checked ⊆ s.checked) :
    Trusted providers (p :: busy) ⟨o', checked⟩ := by
  intro m hm x hx hnew
  obtain ⟨hxp, hxbusy⟩ := not_or.1 (mt List.mem_cons.2 hnew)
  have hsettled := h m (hchecked hm) x hx hxbusy
  exact fun q hq => hput.precedes_of_ne ho hback (hsettled q hq) hxp

/-- When the providers of a module have been placed, it can be marked. -/
theorem Trusted.mark (h : Trusted providers (id :: busy) s)
    (hid : SettledBelow providers s.order id) :
    Trusted providers busy { s with checked := id :: s.checked } := by
  intro m hm x hx hnew
  rcases List.mem_cons.1 hm with rfl | hm
  · exact hid x hx
  · by_cases hxid : x = id
    · subst hxid
      exact hid x .refl
    · exact h m hm x hx fun hmem => (List.mem_cons.1 hmem).elim hxid hnew

/-! ## One placement -/

/-- The pass `t` comes from `s` by placing a module while those of `busy` are being placed: its
order is `o'`, all is settled below the module, and marks can be relied on. -/
structure Replaces (providers : List (ModuleId × List ModuleId)) (busy : List ModuleId)
    (id : ModuleId) (o' : List ModuleId) (t : Pass) : Prop where
  order : t.order = o'
  below : SettledBelow providers t.order id
  trusted : Trusted providers busy t

section Providers

variable {enter : Pass → ModuleId → Pass} {afresh : List ModuleId → ModuleId → List ModuleId}

/-- What holds of placements of the providers of a module, while this module and those of a path
are being placed. -/
structure Replacing (providers : List (ModuleId × List ModuleId)) (busy : List ModuleId)
    (id : ModuleId) (enter : Pass → ModuleId → Pass)
    (afresh : List ModuleId → ModuleId → List ModuleId) : Prop where
  placed : ∀ (s : Pass) (p : ModuleId), Known providers id p → s.order.Nodup → p ∈ s.order →
    Placed providers p (providersOf providers p) s.order (enter s p).order
  enters : ∀ (s : Pass) (p : ModuleId), Known providers id p → s.order.Nodup → p ∈ s.order →
    Trusted providers (p :: busy) s → Replaces providers busy p (afresh s.order p) (enter s p)
  /-- Where all is settled below a provider, entering it changes nothing. -/
  still : ∀ (o : List ModuleId) (p : ModuleId), o.Nodup → SettledBelow providers o p →
    afresh o p = o
  /-- The providers do not depend on modules that are being placed. -/
  apart : ∀ p, Known providers id p → ∀ b ∈ busy, ¬ ReflTransGen (Known providers) p b

namespace Replacing

/-- One provider is put before a module. Nothing is lost by leaving it aside when it is marked. -/
theorem placeOne_replaces (h : Replacing providers busy id enter afresh)
    (hp : Known providers id p) (hne : p ≠ id) (ho : s.order.Nodup) (hid : id ∈ s.order)
    (htrusted : Trusted providers busy s) :
    Replaces providers busy p (reenterOne afresh id s.order p) (placeOne enter id s p) := by
  obtain ⟨⟨o', moved⟩, hmove⟩ := Option.isSome_iff_exists.1 (moveBefore?_isSome (p := p) hid)
  unfold placeOne reenterOne
  rw [hmove]
  dsimp only
  rcases putBefore_of_moveBefore? hne hmove with ⟨rfl, rfl, hfirst⟩ | ⟨rfl, hput, hback⟩
  · simp only [Bool.false_eq_true, ↓reduceIte]
    split
    · next hmarked =>
      have hbelow := htrusted.settledBelow hmarked (h.apart p hp)
      exact ⟨(h.still _ p ho hbelow).symm, hbelow, htrusted⟩
    · exact h.enters s p hp ho hfirst.mem_left (htrusted.cons p)
  · simp only [↓reduceIte, List.mem_filter, ne_eq, not_true_eq_false, decide_false,
      Bool.false_eq_true, and_false]
    apply h.enters ⟨o', _⟩ p hp (hput.nodup ho) (hput.mem_iff.2 (.inl rfl))
    exact htrusted.of_putBefore ho hput hback (List.filter_subset_self _)

/-- The providers of a module are put before it one after the other. -/
theorem placeEach_replaces (h : Replacing providers busy id enter afresh)
    (hacyclic : ¬ TransGen (Known providers) id id) (hps : ∀ p ∈ ps, Known providers id p)
    (ho : s.order.Nodup) (hid : id ∈ s.order) (htrusted : Trusted providers busy s) :
    (placeEach enter id s ps).order = ps.foldl (reenterOne afresh id) s.order ∧
      (∀ p ∈ ps, SettledBelow providers (placeEach enter id s ps).order p) ∧
      Trusted providers busy (placeEach enter id s ps) := by
  induction ps generalizing s with
  | nil => exact ⟨rfl, by simp, htrusted⟩
  | cons p ps ih =>
    rw [List.forall_mem_cons] at hps
    obtain ⟨hp, hps⟩ := hps
    have hne : p ≠ id := fun heq => hacyclic (.single (heq ▸ hp))
    have hone := h.placeOne_replaces hp hne ho hid htrusted
    have hplaced : Placed providers id [p] s.order (placeOne enter id s p).order := by
      have hsingle := placeEach_placed hacyclic (List.forall_mem_singleton.2 hp) h.placed s ho hid
      rwa [placeEach_cons] at hsingle
    have hmem := hplaced.subset hid
    obtain ⟨horder, hbelow, hrest⟩ := ih hps hplaced.nodup hmem hone.trusted
    rw [placeEach_cons]
    refine ⟨?_, ?_, hrest⟩
    · rw [horder, hone.order, List.foldl_cons]
    · have hothers := placeEach_placed hacyclic hps h.placed _ hplaced.nodup hmem
      exact List.forall_mem_cons.2 ⟨hothers.settledBelow hone.below, hbelow⟩

end Replacing

end Providers

/-- **What a placement leaves behind**, when marks can be relied on before: the order that entering
every provider gives, with everything settled on which the module depends, and marks that can be
relied on. -/
theorem place_replaces (hacyclic : ∀ x, ¬ TransGen (Known providers) x x) (path : List ModuleId) :
    ∀ (s : Pass) (id : ModuleId), (∀ x ∈ path, TransGen (Known providers) x id) →
      s.order.Nodup → id ∈ s.order → Trusted providers (id :: path) s →
      Replaces providers path id (placeAfresh providers path s.order id)
        (place providers path s id) := by
  induction path using entering_induction providers with
  | step path ih =>
    intro s id hpath ho hmem htrusted
    have hnew : id ∉ path := fun hid => hacyclic id (hpath id hid)
    have hreach {p : ModuleId} (hp : Known providers id p) :
        ∀ b ∈ id :: path, TransGen (Known providers) b p := by
      intro b hb
      rcases List.mem_cons.1 hb with rfl | hb
      · exact .single hp
      · exact (hpath b hb).tail hp
    have hreplacing : Replacing providers (id :: path) id (place providers (id :: path))
        (placeAfresh providers (id :: path)) := {
      placed := fun s p hp => place_placed hacyclic (id :: path) s p (hreach hp)
      enters := fun s p hp => ih id hp.mem_map_fst hnew s p (hreach hp)
      still := fun o p ho => placeAfresh_of_settledBelow ho (id :: path) p
      apart := fun p hp b hb hpb => hacyclic b ((hreach hp b hb).trans_left hpb) }
    obtain ⟨horder, hbelow, hmarks⟩ :=
      hreplacing.placeEach_replaces (hacyclic id) (fun _ hp => hp) ho hmem htrusted
    have hplaced := placeEach_placed (hacyclic id) (fun _ hp => hp) hreplacing.placed s ho hmem
    rw [place_of_notMem hnew, placeAfresh_of_notMem hnew]
    generalize placeEach (place providers (id :: path)) id s (providersOf providers id) = t
      at horder hbelow hmarks hplaced
    have hsettled : SettledBelow providers t.order id := settledBelow_of_known hplaced.first hbelow
    exact ⟨horder, hsettled, hmarks.mark hsettled⟩

/-- **It makes no difference that marked modules are left aside**: the order comes out as if every
provider were entered each time, when no module depends on itself. -/
theorem place_eq_placeAfresh (hacyclic : ∀ x, ¬ TransGen (Known providers) x x) (ho : o.Nodup)
    (hid : id ∈ o) :
    (place providers [] { order := o } id).order = placeAfresh providers [] o id := by
  -- In the beginning there are no marks, and nothing is being placed.
  have htrusted : Trusted providers [id] { order := o } := fun m hm => by cases hm
  exact (place_replaces hacyclic [] ⟨o, []⟩ id (by simp) ho hid htrusted).order

/-- Module 3 is marked, moves, and is entered again; then module 4, which has been marked anew, is
left aside as a provider of module 2. -/
theorem place_eq_placeAfresh_shared :
    (∀ x, ¬ TransGen (Known [(0, [1, 2]), (1, [3]), (2, [3, 4]), (3, [4])]) x x) ∧
      [2, 1, 0, 3].Nodup ∧ 0 ∈ [2, 1, 0, 3] ∧
      (place [(0, [1, 2]), (1, [3]), (2, [3, 4]), (3, [4])] [] { order := [2, 1, 0, 3] } 0).order =
        [4, 3, 2, 1, 0] ∧
      placeAfresh [(0, [1, 2]), (1, [3]), (2, [3, 4]), (3, [4])] [] [2, 1, 0, 3] 0 =
        [4, 3, 2, 1, 0] := by
  have hacyclic : ∀ x, ¬ TransGen (Known [(0, [1, 2]), (1, [3]), (2, [3, 4]), (3, [4])]) x x :=
    acyclic_of_forall_lt (by decide)
  have hnodup : [2, 1, 0, 3].Nodup := by decide
  have hmem : 0 ∈ [2, 1, 0, 3] := by decide
  have horder : (place [(0, [1, 2]), (1, [3]), (2, [3, 4]), (3, [4])] []
      { order := [2, 1, 0, 3] } 0).order = [4, 3, 2, 1, 0] := by decide +kernel
  exact ⟨hacyclic, hnodup, hmem, horder, place_eq_placeAfresh hacyclic hnodup hmem ▸ horder⟩

/-- In a cycle it does make a difference: here module 1 is entered again behind module 2. -/
example :
    (place [(0, [2, 1]), (1, [2]), (2, [1])] [] { order := [2, 1, 0] } 0).order = [2, 1, 0] ∧
      placeAfresh [(0, [2, 1]), (1, [2]), (2, [1])] [] [2, 1, 0] 0 = [1, 2, 0] := by
  decide +kernel

end StartOrder.Placement
