import StartOrder.Order
import StartOrder.Proofs.Success

/-!
# Precedence in a list

The order of modules is a list in which each of them occurs once, and it is changed by taking
one element out and putting it immediately before another. Such a move leaves alone how the
other elements follow each other. An element that is moved forward comes before everything that
it came before.

## Main definitions

* `Precedes l x y`: an occurrence of `x` comes before one of `y`
* `PutBefore l x y l'`: the list `l'` is `l` with `x` taken out and put immediately before `y`

## Main results

* `PutBefore.perm`: nothing is lost by a move
* `PutBefore.precedes_iff`: how the elements that are not moved follow each other
* `PutBefore.precedes_forward`: what follows an element that is moved forward
* `putBefore_of_moveBefore?`, `putBefore_moveTo`: the moves of providers and of fragments
-/

namespace StartOrder

variable {α : Type} {l l' a b : List α} {x y z u v : α}

/-! ## Precedence -/

/-- An occurrence of `x` comes before an occurrence of `y`. -/
def Precedes (l : List α) (x y : α) : Prop :=
  [x, y].Sublist l

@[simp] theorem not_precedes_nil : ¬ Precedes [] x y := by
  intro h
  cases h

theorem precedes_cons : Precedes (z :: l) x y ↔ x = z ∧ y ∈ l ∨ Precedes l x y := by
  unfold Precedes
  constructor
  · intro h
    cases h with
    | cons _ h => exact .inr h
    | cons_cons _ h => exact .inl ⟨rfl, List.singleton_sublist.1 h⟩
  · rintro (⟨rfl, h⟩ | h)
    · exact (List.singleton_sublist.2 h).cons_cons x
    · exact h.cons z

theorem precedes_append :
    Precedes (a ++ b) x y ↔ Precedes a x y ∨ Precedes b x y ∨ x ∈ a ∧ y ∈ b := by
  induction a with
  | nil => simp [Precedes]
  | cons c a ih =>
    simp only [List.cons_append, precedes_cons, ih, List.mem_append, List.mem_cons]
    grind

namespace Precedes

theorem mem_left (h : Precedes l x y) : x ∈ l := h.subset (by simp)

theorem mem_right (h : Precedes l x y) : y ∈ l := h.subset (by simp)

theorem mono (h : Precedes l x y) (hl : l.Sublist l') : Precedes l' x y :=
  List.Sublist.trans h hl

theorem trans (hl : l.Nodup) (hxy : Precedes l x y) (hyz : Precedes l y z) : Precedes l x z := by
  induction l with
  | nil => cases hxy
  | cons c l ih =>
    obtain ⟨hc, hl⟩ := List.nodup_cons.1 hl
    rcases precedes_cons.1 hyz with ⟨rfl, -⟩ | hyz'
    · rcases precedes_cons.1 hxy with ⟨-, hy⟩ | hxy'
      · exact absurd hy hc
      · exact absurd hxy'.mem_right hc
    · rcases precedes_cons.1 hxy with ⟨rfl, -⟩ | hxy'
      · exact precedes_cons.2 (.inl ⟨rfl, hyz'.mem_right⟩)
      · exact precedes_cons.2 (.inr (ih hl hxy' hyz'))

theorem ne (hl : l.Nodup) (h : Precedes l x y) : x ≠ y := by
  rintro rfl
  have hpair := h.nodup hl
  simp at hpair

end Precedes

/-- Of two elements of a list one comes first. -/
theorem precedes_total (hx : x ∈ l) (hy : y ∈ l) : x = y ∨ Precedes l x y ∨ Precedes l y x := by
  induction l with
  | nil => cases hx
  | cons c l ih =>
    rcases List.mem_cons.1 hx with rfl | hxl
    · rcases List.mem_cons.1 hy with rfl | hyl
      · exact .inl rfl
      · exact .inr (.inl (precedes_cons.2 (.inl ⟨rfl, hyl⟩)))
    · rcases List.mem_cons.1 hy with rfl | hyl
      · exact .inr (.inr (precedes_cons.2 (.inl ⟨rfl, hxl⟩)))
      · exact (ih hxl hyl).imp_right
          (.imp (fun h => precedes_cons.2 (.inr h)) fun h => precedes_cons.2 (.inr h))

theorem precedes_snoc : Precedes (l ++ [z]) x y ↔ Precedes l x y ∨ x ∈ l ∧ y = z := by
  have hone : ¬ Precedes [z] x y := by
    rw [precedes_cons]
    rintro (⟨-, hy⟩ | h)
    · cases hy
    · cases h.mem_left
  rw [precedes_append, List.mem_singleton]
  simp only [hone, false_or]

/-- Taking out another element does not change how two elements follow each other. -/
theorem precedes_erase [DecidableEq α] (hu : u ≠ x) (hv : v ≠ x) :
    Precedes (l.erase x) u v ↔ Precedes l u v := by
  constructor
  · intro h
    exact List.Sublist.trans h List.erase_sublist
  · intro h
    have hpair : [u, v].erase x = [u, v] := List.erase_of_not_mem (by simp [hu.symm, hv.symm])
    have herase := List.Sublist.erase x h
    rwa [hpair] at herase

/-! ## Moves -/

section PutBefore

variable [DecidableEq α]

/-- The list `l'` is `l` with `x` taken out, if it is there, and put immediately before `y`. -/
def PutBefore (l : List α) (x y : α) (l' : List α) : Prop :=
  ∃ a b, l.erase x = a ++ y :: b ∧ l' = a ++ x :: y :: b

namespace PutBefore

theorem mem_iff (h : PutBefore l x y l') : z ∈ l' ↔ z = x ∨ z ∈ l := by
  obtain ⟨a, b, hl, rfl⟩ := h
  by_cases hz : z = x
  · simp [hz]
  · rw [← List.mem_erase_of_ne (l := l) hz, hl]
    simp [hz]

theorem nodup (hl : l.Nodup) (h : PutBefore l x y l') : l'.Nodup := by
  have hx : x ∉ l.erase x := fun hx => (hl.mem_erase_iff.1 hx).1 rfl
  obtain ⟨a, b, heq, rfl⟩ := h
  have herase := hl.erase x
  rw [heq] at hx herase
  exact (List.perm_middle.nodup_iff).2 (List.nodup_cons.2 ⟨hx, herase⟩)

/-- Nothing is lost or put in twice when an element of the list is moved. -/
theorem perm (hx : x ∈ l) (h : PutBefore l x y l') : l'.Perm l := by
  obtain ⟨a, b, heq, rfl⟩ := h
  have hmiddle : (a ++ x :: y :: b).Perm (x :: (a ++ y :: b)) := List.perm_middle
  rw [← heq] at hmiddle
  exact hmiddle.trans (List.perm_cons_erase hx).symm

theorem precedes_target (h : PutBefore l x y l') : Precedes l' x y := by
  obtain ⟨a, b, -, rfl⟩ := h
  exact precedes_append.2 (.inr (.inl (precedes_cons.2 (.inl ⟨rfl, List.mem_cons_self⟩))))

/-- How the elements that are not moved follow each other does not change. -/
theorem precedes_iff (h : PutBefore l x y l') (hu : u ≠ x) (hv : v ≠ x) :
    Precedes l' u v ↔ Precedes l u v := by
  obtain ⟨a, b, heq, rfl⟩ := h
  rw [← precedes_erase hu hv (l := l), heq]
  simp only [precedes_append, precedes_cons, List.mem_cons, hu, hv, false_and, false_or]

/-- An element that is moved forward still comes before everything that it came before. -/
theorem precedes_forward (hl : l.Nodup) (h : PutBefore l x y l') (hyx : Precedes l y x)
    (hxv : Precedes l x v) : Precedes l' x v := by
  have hyv : Precedes l y v := hyx.trans hl hxv
  rw [← precedes_erase (hyx.ne hl) (hxv.ne hl).symm] at hyv
  have herase := hl.erase x
  obtain ⟨a, b, heq, rfl⟩ := h
  rw [heq] at hyv herase
  have hv : v ∈ b := by
    have hy : y ∉ a := fun hy => (List.nodup_append.1 herase).2.2 y hy y List.mem_cons_self rfl
    have hyb : y ∉ b := (List.nodup_cons.1 (List.nodup_append.1 herase).2.1).1
    rcases precedes_append.1 hyv with hya | hyb' | ⟨hya, -⟩
    · exact absurd hya.mem_left hy
    · rcases precedes_cons.1 hyb' with ⟨-, hv⟩ | hyb'
      · exact hv
      · exact absurd hyb'.mem_left hyb
    · exact absurd hya hy
  refine precedes_append.2 (.inr (.inl (precedes_cons.2 (.inl ⟨rfl, ?_⟩))))
  exact List.mem_cons_of_mem _ hv

/-- Nothing stands between the element that is moved and the one before which it is put. -/
theorem not_between (hl : l.Nodup) (h : PutBefore l x y l') (hxz : Precedes l' x z) :
    ¬ Precedes l' z y := by
  intro hzy
  have hl' : l'.Nodup := h.nodup hl
  obtain ⟨a, b, -, rfl⟩ := h
  obtain ⟨-, hrest, hdisjoint⟩ := List.nodup_append.1 hl'
  obtain ⟨hx, hy⟩ := List.nodup_cons.1 hrest
  rw [List.nodup_cons] at hy
  have hz : z = y ∨ z ∈ b := by
    rcases precedes_append.1 hxz with hxa | hxz | ⟨hxa, -⟩
    · exact absurd rfl (hdisjoint x hxa.mem_left x List.mem_cons_self)
    · rcases precedes_cons.1 hxz with ⟨-, hz⟩ | hxz
      · exact List.mem_cons.1 hz
      · exact absurd hxz.mem_left hx
    · exact absurd rfl (hdisjoint x hxa x List.mem_cons_self)
  rcases hz with rfl | hz
  · exact hzy.ne hl' rfl
  · refine (Precedes.trans hl' hzy ?_).ne hl' rfl
    refine precedes_append.2 (.inr (.inl (precedes_cons.2 (.inr ?_))))
    exact precedes_cons.2 (.inl ⟨rfl, hz⟩)

end PutBefore

end PutBefore

/-! ## The moves of providers and fragments -/

section Moves

variable [DecidableEq α]

theorem idxOf?_append_cons (hy : y ∉ a) : (a ++ y :: b).idxOf? y = some a.length := by
  induction a with
  | nil => simp [List.idxOf?_cons]
  | cons c a ih =>
    obtain ⟨hc, hy⟩ := not_or.1 (mt List.mem_cons.2 hy)
    simp [List.idxOf?_cons, Ne.symm hc, ih hy]

omit [DecidableEq α] in
theorem insertIdx_append_length : (a ++ b).insertIdx a.length x = a ++ x :: b := by
  induction a with
  | nil => rfl
  | cons c a ih => simpa using ih

theorem exists_split_of_mem (h : y ∈ l) : ∃ a b, l = a ++ y :: b ∧ y ∉ a := by
  induction l with
  | nil => cases h
  | cons c l ih =>
    by_cases hc : y = c
    · exact ⟨[], l, by simp [hc], List.not_mem_nil⟩
    · obtain ⟨a, b, rfl, hy⟩ := ih ((List.mem_cons.1 h).resolve_left hc)
      exact ⟨c :: a, b, rfl, by simp [hc, hy]⟩

theorem eraseIdx_of_idxOf? {i : Nat} (h : l.idxOf? x = some i) : l.eraseIdx i = l.erase x := by
  rw [List.erase_eq_eraseIdx, h]

end Moves

/-- A provider that has to be moved comes to stand immediately before the module that requires
it. It comes from behind it, if it had a place. -/
theorem putBefore_of_moveBefore? {order order' : List ModuleId} {requirer p : ModuleId}
    {moved : Bool} (hne : p ≠ requirer)
    (h : Placement.moveBefore? order requirer p = some (order', moved)) :
    moved = false ∧ order' = order ∧ Precedes order p requirer ∨
      moved = true ∧ PutBefore order p requirer order' ∧
        (p ∈ order → Precedes order requirer p) := by
  by_cases hr : requirer ∈ order
  · obtain ⟨a, b, rfl, hra⟩ := exists_split_of_mem hr
    simp only [Placement.moveBefore?, idxOf?_append_cons hra] at h
    by_cases hpa : p ∈ a
    · obtain ⟨a, c, rfl, hp⟩ := exists_split_of_mem hpa
      rw [List.append_assoc, List.cons_append, idxOf?_append_cons hp] at h
      simp only [List.length_append, List.length_cons, Nat.lt_add_right_iff_pos,
        Nat.zero_lt_succ, ↓reduceIte] at h
      obtain ⟨rfl, rfl⟩ := Prod.mk.inj (Option.some.inj h)
      refine .inl ⟨rfl, by simp, ?_⟩
      exact precedes_append.2 (.inr (.inr ⟨by simp, List.mem_cons_self⟩))
    · have herase : (a ++ requirer :: b).erase p = a ++ requirer :: b.erase p := by
        rw [List.erase_append_right _ hpa, List.erase_cons_tail (by simpa using hne.symm)]
      have hput : PutBefore (a ++ requirer :: b) p requirer (a ++ p :: requirer :: b.erase p) :=
        ⟨a, b.erase p, herase, rfl⟩
      right
      cases hi : (a ++ requirer :: b).idxOf? p with
      | none =>
        have hp : p ∉ a ++ requirer :: b := List.idxOf?_eq_none_iff.1 hi
        rw [List.erase_of_not_mem (fun hb => hp (by simp [hb]))] at hput
        simp only [hi, insertIdx_append_length] at h
        obtain ⟨rfl, rfl⟩ := Prod.mk.inj (Option.some.inj h)
        exact ⟨rfl, hput, fun hmem => absurd hmem hp⟩
      | some i =>
        -- The provider comes from behind, so that the requirer keeps its index.
        obtain ⟨hlt, hget, -⟩ := List.idxOf?_eq_some_iff.1 hi
        have hle : ¬ i < a.length := by
          intro hia
          rw [List.getElem_append_left hia] at hget
          exact hpa (hget ▸ List.getElem_mem hia)
        simp only [hi, hle, ↓reduceIte, eraseIdx_of_idxOf? hi, herase,
          insertIdx_append_length] at h
        obtain ⟨rfl, rfl⟩ := Prod.mk.inj (Option.some.inj h)
        refine ⟨rfl, hput, fun hmem => ?_⟩
        have hpb : p ∈ b := by simpa [hpa, hne] using hmem
        exact precedes_append.2 (.inr (.inl (precedes_cons.2 (.inl ⟨rfl, hpb⟩))))
  · rw [Placement.moveBefore?, List.idxOf?_eq_none_iff.2 hr] at h
    cases h

/-- A fragment comes to stand immediately before its host, from wherever it was. -/
theorem putBefore_moveTo {order : List ModuleId} {fragment host : ModuleId}
    (hne : fragment ≠ host) (hf : fragment ∈ order) (hh : host ∈ order) :
    PutBefore order fragment host (Fragment.moveTo fragment host order) := by
  obtain ⟨i, hi⟩ := Option.isSome_iff_exists.1 (List.isSome_idxOf?.2 hf)
  obtain ⟨j, hj⟩ := Option.isSome_iff_exists.1 (List.isSome_idxOf?.2 hh)
  simp only [Fragment.moveTo, hi, hj]
  split
  · next hij =>
    obtain ⟨a, c, rfl, hfa⟩ := exists_split_of_mem hf
    obtain rfl := Option.some.inj (hi.symm.trans (idxOf?_append_cons hfa))
    obtain ⟨hlt, hget, -⟩ := List.idxOf?_eq_some_iff.1 hj
    cases c with
    | nil => simp [← hij] at hlt
    | cons d c =>
      obtain rfl : d = host := by simpa [← hij] using hget
      exact ⟨a, c, by simp [List.erase_append_right, hfa], rfl⟩
  · rw [eraseIdx_of_idxOf? hi]
    obtain ⟨a, b, hrest, hha⟩ := exists_split_of_mem ((List.mem_erase_of_ne hne.symm).2 hh)
    refine ⟨a, b, hrest, ?_⟩
    rw [hrest, idxOf?_append_cons hha, Option.getD_some, insertIdx_append_length]

end StartOrder
