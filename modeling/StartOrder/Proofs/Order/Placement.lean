import Mathlib.Logic.Relation
import StartOrder.Proofs.Order.Precedence

/-!
# Providers come first

Placing the providers of a module moves them forward, and each provider that has moved has its
own providers placed at once. So if providers do not depend on each other in a cycle, a module
that comes behind all its providers still does so afterwards: it may be moved, and then it is
placed again, or one of its providers may be moved, and then that provider is moved forward.
Modules that are known to be placed may therefore be left aside.

## Main definitions

* `Placement.providersOf`, `Placement.Known`: the providers that are known of a module
* `Placement.Settled`: a module comes behind all its known providers
* `Placement.Placed`: what placing providers of a module does to an order
* `Placement.Ordered`: every module comes behind its known providers

## Main results

* `Placement.place_placed`: placing a module settles it and unsettles nothing
* `Placement.ordered_foldl_add`: adding entries keeps the order
* `Placement.known_foldl_add`: the providers that are known are those to which wires lead
-/

namespace StartOrder.Placement

open Relation (TransGen)
open Wiring (Wire Entry Resolution)

variable {providers : List (ModuleId × List ModuleId)} {o o' o'' : List ModuleId}
  {id p : ModuleId} {ps ps' path : List ModuleId}

/-- The providers that are known of a module. -/
def providersOf (providers : List (ModuleId × List ModuleId)) (id : ModuleId) : List ModuleId :=
  (providers.lookup id).getD []

/-- The one module is known to be a provider of the other. -/
def Known (providers : List (ModuleId × List ModuleId)) (m p : ModuleId) : Prop :=
  p ∈ providersOf providers m

/-- A module comes behind its known providers. -/
def Settled (providers : List (ModuleId × List ModuleId)) (o : List ModuleId) (m : ModuleId) :
    Prop :=
  ∀ p, Known providers m p → Precedes o p m

/-! ## Placing providers -/

/-- The order `o'` comes from `o` by placing the providers `ps` of a module. Only modules on which
it depends have been moved, and these are settled again. -/
structure Placed (providers : List (ModuleId × List ModuleId)) (id : ModuleId)
    (ps o o' : List ModuleId) : Prop where
  nodup : o'.Nodup
  subset : o ⊆ o'
  kept : ∀ x y, Precedes o x y → ¬ TransGen (Known providers) id y → Precedes o' x y
  settled : ∀ x, Settled providers o x → Settled providers o' x
  first : ∀ p ∈ ps, Precedes o' p id

namespace Placed

theorem refl (ho : o.Nodup) (h : ∀ p ∈ ps, Precedes o p id) : Placed providers id ps o o where
  nodup := ho
  subset := List.Subset.refl o
  kept := fun _ _ h _ => h
  settled := fun _ h => h
  first := h

theorem trans (hid : ¬ TransGen (Known providers) id id) (h : Placed providers id ps o o')
    (h' : Placed providers id ps' o' o'') : Placed providers id (ps ++ ps') o o'' where
  nodup := h'.nodup
  subset := List.Subset.trans h.subset h'.subset
  kept := fun x y hxy hy => h'.kept x y (h.kept x y hxy hy) hy
  settled := fun x hx => h'.settled x (h.settled x hx)
  first := by
    intro p hp
    rcases List.mem_append.1 hp with hp | hp
    · exact h'.kept p id (h.first p hp) hid
    · exact h'.first p hp

/-- A provider that already comes first is placed with its own providers. -/
theorem of_enter (hid : ¬ TransGen (Known providers) id id) (hp : Known providers id p)
    (hfirst : Precedes o p id) (h : Placed providers p ps o o') :
    Placed providers id [p] o o' where
  nodup := h.nodup
  subset := h.subset
  kept := fun x y hxy hy => h.kept x y hxy fun hpy => hy (.head hp hpy)
  settled := h.settled
  first := by
    intro q hq
    obtain rfl := List.mem_singleton.1 hq
    exact h.kept q id hfirst fun hpid => hid (.head hp hpid)

/-- A provider that is moved forward is placed with its own providers. -/
theorem of_move (ho : o.Nodup) (hid : ¬ TransGen (Known providers) id id)
    (hp : Known providers id p) (hmove : PutBefore o p id o')
    (hback : p ∈ o → Precedes o id p)
    (h : Placed providers p (providersOf providers p) o' o'') :
    Placed providers id [p] o o'' := by
  have keep {x y : ModuleId} (hxy : Precedes o x y) (hy : y ≠ p) : Precedes o' x y := by
    by_cases hx : x = p
    · subst hx
      exact hmove.precedes_forward ho (hback hxy.mem_left) hxy
    · exact (hmove.precedes_iff hx hy).2 hxy
  refine ⟨h.nodup, ?_, ?_, ?_, ?_⟩
  · exact fun x hx => h.subset (hmove.mem_iff.2 (.inr hx))
  · intro x y hxy hy
    refine h.kept x y (keep hxy ?_) fun hpy => hy (.head hp hpy)
    rintro rfl
    exact hy (.single hp)
  · intro x hx
    by_cases hxp : x = p
    · subst hxp
      exact h.first
    · exact h.settled x fun q hq => keep (hx q hq) hxp
  · intro q hq
    obtain rfl := List.mem_singleton.1 hq
    exact h.kept q id hmove.precedes_target fun hpid => hid (.head hp hpid)

end Placed

theorem moveBefore?_isSome (h : id ∈ o) : (moveBefore? o id p).isSome = true := by
  obtain ⟨i, hi⟩ := Option.isSome_iff_exists.1 (List.isSome_idxOf?.2 h)
  simp only [moveBefore?, hi]
  split
  · rfl
  · split <;> rfl

/-- Providers of a module are placed one after the other. -/
theorem placeEach_placed {enter : Pass → ModuleId → Pass}
    (hid : ¬ TransGen (Known providers) id id) (hps : ∀ p ∈ ps, Known providers id p)
    (henter : ∀ (s : Pass) (p : ModuleId), Known providers id p → s.order.Nodup → p ∈ s.order →
      Placed providers p (providersOf providers p) s.order (enter s p).order)
    (s : Pass) (ho : s.order.Nodup) (hmem : id ∈ s.order) :
    Placed providers id ps s.order (placeEach enter id s ps).order := by
  induction ps generalizing s with
  | nil => exact .refl ho (by simp)
  | cons p ps ih =>
    have hp : Known providers id p := hps p List.mem_cons_self
    have ih := ih fun q hq => hps q (List.mem_cons_of_mem _ hq)
    have hne : p ≠ id := fun h => hid (.single (h ▸ hp))
    unfold placeEach
    split
    · next hnone =>
      have hsome := moveBefore?_isSome (p := p) hmem
      simp [hnone] at hsome
    · next o' moved hmove =>
      -- It is enough to place the one provider, since the others are placed by induction.
      have step : ∀ s' : Pass, Placed providers id [p] s.order s'.order →
          Placed providers id (p :: ps) s.order (placeEach enter id s' ps).order :=
        fun s' h => h.trans hid (ih s' h.nodup (h.subset hmem))
      apply step
      rcases putBefore_of_moveBefore? hne hmove with ⟨rfl, rfl, hfirst⟩ | ⟨rfl, hput, hback⟩
      · simp only [Bool.false_eq_true, ↓reduceIte]
        split
        · refine .refl ho fun q hq => ?_
          exact List.mem_singleton.1 hq ▸ hfirst
        · exact .of_enter hid hp hfirst (henter s p hp ho hfirst.mem_left)
      · simp only [↓reduceIte, List.mem_filter, ne_eq, not_true_eq_false, decide_false,
          Bool.false_eq_true, and_false]
        have ho' := hput.nodup ho
        have hmem' : p ∈ o' := hput.mem_iff.2 (.inl rfl)
        exact .of_move ho hid hp hput hback (henter ⟨o', _⟩ p hp ho' hmem')

/-- Induction on the modules that are being placed: it goes back from more of them to fewer. -/
theorem entering_induction (providers : List (ModuleId × List ModuleId))
    {motive : List ModuleId → Prop}
    (step : ∀ path, (∀ id ∈ providers.map Prod.fst, id ∉ path → motive (id :: path)) →
      motive path) (path : List ModuleId) : motive path := by
  induction hn : (unentered providers path).length using Nat.strongRecOn
    generalizing path with
  | _ n ih =>
    refine step path fun id hid hnew => ?_
    exact ih _ (hn ▸ unentered_cons_lt hid hnew) (id :: path) rfl

/-- **Placing a module settles it and unsettles nothing**, when it does not depend on itself. -/
theorem place_placed (hacyclic : ∀ x, ¬ TransGen (Known providers) x x) (path : List ModuleId) :
    ∀ (s : Pass) (id : ModuleId), (∀ x ∈ path, TransGen (Known providers) x id) →
      s.order.Nodup → id ∈ s.order →
      Placed providers id (providersOf providers id) s.order (place providers path s id).order := by
  induction path using entering_induction providers with
  | step path ih =>
    intro s id hpath ho hmem
    unfold place
    split
    · next hid => exact absurd (hpath id hid) (hacyclic id)
    · next hid =>
      split
      · next hnone => exact .refl ho (by simp [providersOf, hnone])
      · next ps hps =>
        have hknown : providersOf providers id = ps := by simp [providersOf, hps]
        rw [hknown]
        refine placeEach_placed (hacyclic id) (by simp [Known, hknown]) ?_ s ho hmem
        intro s p hp hs hmem
        refine ih id (mem_map_fst_of_lookup hps) hid s p (fun x hx => ?_) hs hmem
        rcases List.mem_cons.1 hx with rfl | hx
        · exact .single hp
        · exact (hpath x hx).tail hp

/-! ## Adding entries -/

section Adding

variable {known : List ModuleId} {ws : List Wire} {e : Entry} {es : List Entry} {P : Placement}
  {m q : ModuleId}

theorem mem_addProviders :
    q ∈ addProviders known ws ↔ q ∈ known ∨ ∃ w ∈ ws, w.isSelf = false ∧ w.provider = q := by
  unfold addProviders
  induction ws generalizing known with
  | nil => simp
  | cons w ws ih =>
    cases hw : w.isSelf with
    | true => simp [hw, ih]
    | false =>
      simp only [List.filter_cons, hw, Bool.not_false, ↓reduceIte, List.foldl_cons]
      rw [ih]
      by_cases hmem : w.provider ∈ known
      · simp only [hmem, ↓reduceIte, List.mem_cons, exists_eq_or_imp, hw, true_and]
        constructor
        · exact Or.imp_right .inr
        · rintro (hq | rfl | hq)
          · exact .inl hq
          · exact .inl hmem
          · exact .inr hq
      · simp only [hmem, ↓reduceIte, List.mem_append, List.mem_cons, List.not_mem_nil,
          or_false, exists_eq_or_imp, hw, true_and, or_assoc, eq_comm (a := q)]

theorem lookup_record (providers : List (ModuleId × List ModuleId)) (e : Entry) (m : ModuleId) :
    (record providers e).lookup m =
      if m = e.1 then some (addProviders (providersOf providers m) e.2)
      else providers.lookup m := by
  unfold record
  split
  · next hnone =>
    rw [List.lookup_append, List.lookup_cons]
    by_cases hm : m = e.1
    · simp [hm, hnone, providersOf]
    · simp [hm, beq_false_of_ne hm]
  · next known hknown =>
    have hlookup : providersOf providers e.1 = known := by simp [providersOf, hknown]
    -- The entries behind the first one of the module are replaced as well, and never looked up.
    suffices h : ∀ es : List (ModuleId × List ModuleId),
        (es.map fun p => if p.1 = e.1 then (e.1, addProviders known e.2) else p).lookup m =
          if m = e.1 then (es.lookup m).map fun _ => addProviders known e.2 else es.lookup m by
      rw [h]
      by_cases hm : m = e.1
      · simp [hm, hknown, hlookup]
      · simp [hm]
    intro es
    induction es with
    | nil => simp
    | cons p es ih =>
      rw [List.map_cons, List.lookup_cons, List.lookup_cons, ih]
      by_cases hm : m = e.1
      · by_cases hp : p.1 = e.1
        · simp [hp, hm]
        · simp [hp, hm, beq_false_of_ne (Ne.symm hp)]
      · by_cases hp : p.1 = e.1 <;> simp [hp, hm, beq_false_of_ne hm]

/-- The providers that are known afterwards are those of before and those of the entry. -/
theorem known_add : Known (add P e).providers m q ↔
    Known P.providers m q ∨ e.1 = m ∧ ∃ w ∈ e.2, w.isSelf = false ∧ w.provider = q := by
  simp only [Known, add, providersOf, lookup_record]
  by_cases hm : m = e.1
  · simp [hm, mem_addProviders]
  · simp [hm, Ne.symm hm]

theorem known_foldl_add : Known (es.foldl add P).providers m q ↔
    Known P.providers m q ∨ ∃ e ∈ es, e.1 = m ∧ ∃ w ∈ e.2, w.isSelf = false ∧ w.provider = q := by
  induction es generalizing P with
  | nil => simp
  | cons e es ih =>
    rw [List.foldl_cons, ih, known_add]
    simp [or_assoc]

/-- Every module has at most one place and comes behind its known providers. -/
structure Ordered (P : Placement) : Prop where
  nodup : P.order.Nodup
  settled : ∀ m, Settled P.providers P.order m

theorem ordered_empty : Ordered {} where
  nodup := .nil
  settled := fun m p hp => by simp [Known, providersOf] at hp

/-- Adding an entry keeps the order, when afterwards no module depends on itself. -/
theorem Ordered.add (h : Ordered P)
    (hacyclic : ∀ x, ¬ TransGen (Known (Placement.add P e).providers) x x) :
    Ordered (Placement.add P e) := by
  obtain ⟨o, ho⟩ : ∃ o, o = if e.1 ∈ P.order then P.order else P.order ++ [e.1] := ⟨_, rfl⟩
  have hnodup : o.Nodup := by
    by_cases hmem : e.1 ∈ P.order
    · simpa [ho, hmem] using h.nodup
    · rw [ho, if_neg hmem]
      exact (List.perm_append_singleton _ _).nodup_iff.2 (List.nodup_cons.2 ⟨hmem, h.nodup⟩)
  have hsub : P.order.Sublist o := by
    by_cases hmem : e.1 ∈ P.order <;> simp [ho, hmem]
  have hmem : e.1 ∈ o := by
    by_cases hmem : e.1 ∈ P.order <;> simp [ho, hmem]
  have hplaced := place_placed hacyclic [] ⟨o, []⟩ e.1 (by simp) hnodup hmem
  have heq : Placement.add P e = ⟨(place (record P.providers e) [] ⟨o, []⟩ e.1).order,
      record P.providers e⟩ := by rw [ho]; rfl
  rw [heq]
  refine ⟨hplaced.nodup, fun m => ?_⟩
  by_cases hm : m = e.1
  · subst hm
    exact hplaced.first
  · refine hplaced.settled m fun q hq => ?_
    have hold := (known_add.1 hq).resolve_right fun hnew => hm hnew.1.symm
    exact List.Sublist.trans (h.settled m q hold) hsub

/-- **Adding entries keeps the order**, when in the end no module depends on itself. -/
theorem ordered_foldl_add (h : Ordered P)
    (hacyclic : ∀ x, ¬ TransGen (Known (es.foldl Placement.add P).providers) x x) :
    Ordered (es.foldl Placement.add P) := by
  induction es generalizing P with
  | nil => exact h
  | cons e es ih =>
    have hknown : ∀ m q, Known (Placement.add P e).providers m q →
        Known (es.foldl Placement.add (Placement.add P e)).providers m q :=
      fun m q hq => known_foldl_add.2 (.inl hq)
    exact ih (h.add fun x hx => hacyclic x (TransGen.mono hknown _ _ hx)) hacyclic

end Adding

end StartOrder.Placement
