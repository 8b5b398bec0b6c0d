import StartOrder.Proofs.Order.Placement

/-!
# What is moved when providers are placed

Placing the providers of a module moves modules on which it depends, and moves them forward only.
This also holds when modules depend on each other in cycles: then a module may be moved away from
under its own providers, but no module disappears or is put in twice, and a module on which the
placed one does not depend stays behind everything behind which it was.

## Main definitions

* `Placement.placeOne`, `Placement.PlacesOne`: one provider put before a module, and the ways in
  which that can go
* `Placement.Irreflexive`: no module is known as its own provider
* `Placement.Moved providers id o o'`: what placing the module `id` does to an order

## Main results

* `PutBefore.precedes_of_ne`: a module that is not moved forward stays behind what it was behind
* `Placement.place_moved`: placing a module moves forward some of those on which it depends
* `Placement.add_moved`: what adding an entry does to an order
* `Placement.nodup_foldl_add`, `Placement.mem_foldl_add`: the modules of an order, each once
-/

namespace StartOrder

/-! ## Moves forward -/

namespace PutBefore

variable {o o' l l' : List ModuleId} {p id x y : ModuleId}

/-- When a module is moved forward, all others stay behind what they were behind. -/
theorem precedes_of_ne (ho : o.Nodup) (h : PutBefore o p id o') (hback : p ∈ o → Precedes o id p)
    (hxy : Precedes o x y) (hy : y ≠ p) : Precedes o' x y := by
  by_cases hx : x = p
  · subst hx
    exact h.precedes_forward ho (hback hxy.mem_left) hxy
  · exact (h.precedes_iff hx hy).2 hxy

end PutBefore

namespace Placement

open Relation (TransGen)
open Wiring (Entry)

variable {providers : List (ModuleId × List ModuleId)} {o o' o'' : List ModuleId}
  {id p q m x : ModuleId} {ps ps' : List ModuleId} {enter : Pass → ModuleId → Pass} {s t : Pass}

/-! ## One provider at a time -/

/-- Put one provider before a module, and enter it unless its own providers have been placed. -/
def placeOne (enter : Pass → ModuleId → Pass) (requirer : ModuleId) (s : Pass) (p : ModuleId) :
    Pass :=
  match moveBefore? s.order requirer p with
  | none => s
  | some (order, moved) =>
    let s : Pass :=
      { order, checked := if moved then s.checked.filter (· ≠ p) else s.checked }
    if p ∈ s.checked then s else enter s p

theorem placeEach_cons : placeEach enter id s (p :: ps) =
    placeEach enter id (placeOne enter id s p) ps := by
  rw [placeEach, placeOne]
  cases moveBefore? s.order id p <;> rfl

theorem placeEach_append : placeEach enter id s (ps ++ ps') =
    placeEach enter id (placeEach enter id s ps) ps' := by
  induction ps generalizing s with
  | nil => rfl
  | cons p ps ih => rw [List.cons_append, placeEach_cons, ih, placeEach_cons]

/-- The ways in which one provider is put before a module. -/
inductive PlacesOne (enter : Pass → ModuleId → Pass) (id : ModuleId) (s : Pass) (p : ModuleId) :
    Pass → Prop
  /-- The module has no place. -/
  | absent (hid : id ∉ s.order) : PlacesOne enter id s p s
  /-- The provider comes first, and its own providers have been placed. -/
  | stays (hfirst : Precedes s.order p id) : PlacesOne enter id s p s
  /-- The provider comes first, and its own providers are placed now. -/
  | enters (hfirst : Precedes s.order p id) : PlacesOne enter id s p (enter s p)
  /-- The provider is moved forward or put in, and its own providers are placed in any case. -/
  | moves {s' : Pass} (hput : PutBefore s.order p id s'.order)
      (hback : p ∈ s.order → Precedes s.order id p) : PlacesOne enter id s p (enter s' p)

theorem placesOne (hne : p ≠ id) : PlacesOne enter id s p (placeOne enter id s p) := by
  unfold placeOne
  cases hmove : moveBefore? s.order id p with
  | none =>
    refine .absent fun hid => ?_
    have hsome := moveBefore?_isSome (p := p) hid
    rw [hmove] at hsome
    cases hsome
  | some r =>
    obtain ⟨order, moved⟩ := r
    rcases putBefore_of_moveBefore? hne hmove with ⟨rfl, rfl, hfirst⟩ | ⟨rfl, hput, hback⟩
    · simp only [Bool.false_eq_true, ↓reduceIte]
      split
      · exact .stays hfirst
      · exact .enters hfirst
    · -- A provider that has been moved does not count as placed any more.
      simp only [↓reduceIte, List.mem_filter, ne_eq, not_true_eq_false, decide_false,
        Bool.false_eq_true, and_false]
      exact @PlacesOne.moves enter id s p ⟨order, _⟩ hput hback

/-! ## What is moved -/

/-- No module is known as its own provider. -/
def Irreflexive (providers : List (ModuleId × List ModuleId)) : Prop :=
  ∀ m, ¬ Known providers m m

/-- The order `o'` comes from `o` by moving forward, or putting in, modules on which `id`
depends. -/
structure Moved (providers : List (ModuleId × List ModuleId)) (id : ModuleId)
    (o o' : List ModuleId) : Prop where
  nodup : o'.Nodup
  subset : o ⊆ o'
  /-- Nothing is put in but modules on which `id` depends. -/
  gained : ∀ x ∈ o', x ∈ o ∨ TransGen (Known providers) id x
  /-- A module on which `id` does not depend stays behind what it was behind. -/
  kept : ∀ x y, Precedes o x y → ¬ TransGen (Known providers) id y → Precedes o' x y

namespace Moved

theorem refl (ho : o.Nodup) : Moved providers id o o where
  nodup := ho
  subset := List.Subset.refl o
  gained := fun _ hx => .inl hx
  kept := fun _ _ h _ => h

theorem trans (h : Moved providers id o o') (h' : Moved providers id o' o'') :
    Moved providers id o o'' where
  nodup := h'.nodup
  subset := List.Subset.trans h.subset h'.subset
  gained := by
    intro x hx
    rcases h'.gained x hx with hx | hx
    · exact h.gained x hx
    · exact .inr hx
  kept := fun x y hxy hy => h'.kept x y (h.kept x y hxy hy) hy

/-- What a provider depends on its requirer depends on. -/
theorem of_known (hp : Known providers id p) (h : Moved providers p o o') :
    Moved providers id o o' where
  nodup := h.nodup
  subset := h.subset
  gained := fun x hx => (h.gained x hx).imp_right (.head hp)
  kept := fun x y hxy hy => h.kept x y hxy fun hpy => hy (.head hp hpy)

/-- One provider is moved forward, or put in. -/
theorem of_putBefore (ho : o.Nodup) (hp : Known providers id p) (hput : PutBefore o p id o')
    (hback : p ∈ o → Precedes o id p) : Moved providers id o o' where
  nodup := hput.nodup ho
  subset := fun x hx => hput.mem_iff.2 (.inr hx)
  gained := by
    intro x hx
    rcases hput.mem_iff.1 hx with rfl | hx
    · exact .inr (.single hp)
    · exact .inl hx
  kept := by
    intro x y hxy hy
    refine hput.precedes_of_ne ho hback hxy ?_
    rintro rfl
    exact hy (.single hp)

end Moved

/-- What holds of all searches for the providers of a module: they move what it depends on. -/
def Moves (providers : List (ModuleId × List ModuleId)) (enter : Pass → ModuleId → Pass) : Prop :=
  ∀ (s : Pass) (p : ModuleId), s.order.Nodup → Moved providers p s.order (enter s p).order

theorem Moves.placeOne_moved (h : Moves providers enter) (hne : p ≠ id)
    (hp : Known providers id p) (ho : s.order.Nodup) :
    Moved providers id s.order (placeOne enter id s p).order := by
  generalize ht : placeOne enter id s p = t
  have hstep : PlacesOne enter id s p t := ht ▸ placesOne hne
  cases hstep with
  | absent | stays => exact .refl ho
  | enters => exact (h s p ho).of_known hp
  | @moves s' hput hback =>
    have hmoved := Moved.of_putBefore ho hp hput hback
    exact hmoved.trans ((h s' p hmoved.nodup).of_known hp)

theorem Moves.placeEach_moved (h : Moves providers enter) (hirrefl : Irreflexive providers)
    (hps : ∀ p ∈ ps, Known providers id p) (ho : s.order.Nodup) :
    Moved providers id s.order (placeEach enter id s ps).order := by
  induction ps generalizing s with
  | nil => exact .refl ho
  | cons p ps ih =>
    have hp : Known providers id p := hps p List.mem_cons_self
    have hne : p ≠ id := fun heq => hirrefl id (heq ▸ hp)
    have hone := h.placeOne_moved hne hp ho
    rw [placeEach_cons]
    exact hone.trans (ih (fun q hq => hps q (List.mem_cons_of_mem _ hq)) hone.nodup)

/-- **Placing a module moves forward some of those on which it depends**, and leaves everything
else alone. -/
theorem place_moved (hirrefl : Irreflexive providers) (path : List ModuleId) :
    Moves providers (place providers path) := by
  induction path using entering_induction providers with
  | step path ih =>
    intro s id ho
    unfold place
    split
    · exact .refl ho
    · next hid =>
      split
      · exact .refl ho
      · next ps hps =>
        have hknown : providersOf providers id = ps := by rw [providersOf, hps, Option.getD_some]
        have hmoves := ih id (mem_map_fst_of_lookup hps) hid
        refine hmoves.placeEach_moved hirrefl (fun p hp => ?_) ho
        rwa [Known, hknown]

/-! ## Adding entries -/

section Adding

variable {P : Placement} {e : Entry} {es : List Entry}

theorem Irreflexive.of_foldl_add (h : Irreflexive (es.foldl add P).providers) :
    Irreflexive P.providers :=
  fun m hm => h m (known_foldl_add.2 (.inl hm))

/-- Adding an entry gives its module a place, and then moves modules on which it depends. -/
theorem add_moved (ho : P.order.Nodup) (hirrefl : Irreflexive (add P e).providers) :
    ∃ o, o.Nodup ∧ P.order.Sublist o ∧ (∀ x, x ∈ o ↔ x ∈ P.order ∨ x = e.1) ∧
      (add P e).order = (place (add P e).providers [] ⟨o, []⟩ e.1).order ∧
      Moved (add P e).providers e.1 o (add P e).order := by
  obtain ⟨o, hdef⟩ : ∃ o, o = if e.1 ∈ P.order then P.order else P.order ++ [e.1] := ⟨_, rfl⟩
  have horder : (add P e).order = (place (add P e).providers [] ⟨o, []⟩ e.1).order := by
    rw [hdef]
    rfl
  have hplace : o.Nodup ∧ P.order.Sublist o ∧ ∀ x, x ∈ o ↔ x ∈ P.order ∨ x = e.1 := by
    by_cases hmem : e.1 ∈ P.order
    · rw [if_pos hmem] at hdef
      subst hdef
      exact ⟨ho, List.Sublist.refl _, fun x => by simp +contextual [hmem]⟩
    · rw [if_neg hmem] at hdef
      subst hdef
      refine ⟨?_, List.sublist_append_left _ _, fun x => by simp⟩
      exact (List.perm_append_singleton _ _).nodup_iff.2 (List.nodup_cons.2 ⟨hmem, ho⟩)
  obtain ⟨hnodup, hsub, hmem⟩ := hplace
  refine ⟨o, hnodup, hsub, hmem, horder, ?_⟩
  rw [horder]
  exact place_moved hirrefl [] ⟨o, []⟩ e.1 hnodup

/-- No module is put in twice. -/
theorem nodup_foldl_add (ho : P.order.Nodup)
    (hirrefl : Irreflexive (es.foldl add P).providers) : (es.foldl add P).order.Nodup := by
  induction es generalizing P with
  | nil => exact ho
  | cons e es ih =>
    rw [List.foldl_cons] at hirrefl ⊢
    obtain ⟨o, -, -, -, -, hmoved⟩ := add_moved (e := e) ho hirrefl.of_foldl_add
    exact ih hmoved.nodup hirrefl

/-- The modules that have a place afterwards had one, or have an entry, or are known as
providers. -/
theorem mem_foldl_add (ho : P.order.Nodup) (hirrefl : Irreflexive (es.foldl add P).providers) :
    (∀ x ∈ P.order, x ∈ (es.foldl add P).order) ∧ (∀ e ∈ es, e.1 ∈ (es.foldl add P).order) ∧
      ∀ x ∈ (es.foldl add P).order, x ∈ P.order ∨ (∃ e ∈ es, e.1 = x) ∨
        ∃ m, Known (es.foldl add P).providers m x := by
  induction es generalizing P with
  | nil => exact ⟨fun _ hx => hx, by simp, fun _ hx => .inl hx⟩
  | cons e es ih =>
    rw [List.foldl_cons] at hirrefl ⊢
    obtain ⟨o, -, -, hmem, -, hmoved⟩ := add_moved (e := e) ho hirrefl.of_foldl_add
    obtain ⟨hkeep, hentries, hgained⟩ := ih hmoved.nodup hirrefl
    have hadded (x) (hx : x ∈ P.order ∨ x = e.1) : x ∈ (es.foldl add (add P e)).order :=
      hkeep x (hmoved.subset ((hmem x).2 hx))
    refine ⟨fun x hx => hadded x (.inl hx), ?_, ?_⟩
    · intro f hf
      rcases List.mem_cons.1 hf with rfl | hf
      · exact hadded f.1 (.inr rfl)
      · exact hentries f hf
    · intro x hx
      rcases hgained x hx with hx | ⟨f, hf, rfl⟩ | hx
      · rcases hmoved.gained x hx with hx | hx
        · rcases (hmem x).1 hx with hx | rfl
          · exact .inl hx
          · exact .inr (.inl ⟨e, List.mem_cons_self, rfl⟩)
        · obtain ⟨m, -, hm⟩ := TransGen.tail'_iff.1 hx
          exact .inr (.inr ⟨m, known_foldl_add.2 (.inl hm)⟩)
      · exact .inr (.inl ⟨f, List.mem_cons_of_mem _ hf, rfl⟩)
      · exact .inr (.inr hx)

end Adding

end Placement

end StartOrder
