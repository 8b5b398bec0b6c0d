import Mathlib.Data.List.Induction
import StartOrder.Module.Graph

/-!
# What a graph holds

A graph comes about by putting modules in one after the other. Each module that was put in is
there, but for the owners of its contracts, and the graph holds nothing else. The contracts of a
module belong to the place at which it is held.

## Main definitions

* `Graph.HoldsOf g ms`: the modules of `g` are among `ms`, each owned by its place
* `Graph.Owned g`: contracts belong to the places of their modules
* `Graph.Distinct g`: no module is held at two places
* `Graph.insertAll g ms`: several modules put in, one after the other
* `Graph.Rearranges g g'`: the same modules are held, perhaps at other places
* `Graph.Counterpart g g' i i'`: the same module lies at `i` in `g` and at `i'` in `g'`

## Main results

* `Graph.HoldsOf.insert`, `Graph.holdsOf_ofList`: what is put in, and nothing else
* `Graph.Distinct.insert`, `Graph.distinct_ofList`: every module is held once
* `Graph.HoldsOf.owner`, `Graph.HoldsOf.requirer`: contracts belong to the place
* `Graph.exists_find?_ofList`: every module of a list has a place
* `Graph.rearranges_ofList`: the order of a list only decides where its modules lie
-/

namespace StartOrder

namespace Graph

variable {g : Graph} {ms ms' : List Module}

/-- Every module of a graph is one of `ms`, with contracts that belong to its place. -/
def HoldsOf (g : Graph) (ms : List Module) : Prop :=
  ∀ id n, g.get? id = some n → ∃ m ∈ ms, n = m.ownedBy id

theorem holdsOf_empty : empty.HoldsOf ms := by
  intro id n h
  simp [get?, empty] at h

theorem HoldsOf.mono (h : g.HoldsOf ms) (hms : ms ⊆ ms') : g.HoldsOf ms' := by
  intro id n hn
  obtain ⟨m, hm, rfl⟩ := h id n hn
  exact ⟨m, hms hm, rfl⟩

theorem HoldsOf.insert (h : g.HoldsOf ms) {m : Module} (hm : m ∈ ms) :
    (g.insert m).1.HoldsOf ms := by
  intro id n hn
  by_cases hid : id < g.size
  · rw [get?_insert_old m hid] at hn
    exact h id n hn
  · unfold Graph.insert at hn
    split at hn
    · exact absurd (List.getElem?_eq_some_iff.1 hn).1 hid
    · have hsize : id = g.size := by
        obtain ⟨hlt, -⟩ := List.getElem?_eq_some_iff.1 hn
        rw [List.length_append, List.length_singleton] at hlt
        exact Nat.le_antisymm (Nat.le_of_lt_succ hlt) (Nat.le_of_not_lt hid)
      subst hsize
      exact ⟨m, hm, by simpa [get?, size] using hn.symm⟩

/-- The capabilities of a module belong to its place. -/
theorem HoldsOf.owner (h : g.HoldsOf ms) {id : ModuleId} {n : Module} (hn : g.get? id = some n)
    {c : Capability} (hc : c ∈ n.capabilities) : c.owner = some id := by
  obtain ⟨m, -, rfl⟩ := h id n hn
  exact Module.owner_of_mem_capabilities_ownedBy hc

/-- The requirements of a module belong to its place. -/
theorem HoldsOf.requirer (h : g.HoldsOf ms) {id : ModuleId} {n : Module} (hn : g.get? id = some n)
    {r : Requirement} (hr : r ∈ n.requirements) : r.owner = some id := by
  obtain ⟨m, -, rfl⟩ := h id n hn
  exact Module.owner_of_mem_requirements_ownedBy hr

/-- The contracts of every module belong to its place. -/
structure Owned (g : Graph) : Prop where
  capability : ∀ {id n}, g.get? id = some n → ∀ c ∈ n.capabilities, c.owner = some id
  requirement : ∀ {id n}, g.get? id = some n → ∀ r ∈ n.requirements, r.owner = some id

theorem HoldsOf.owned (h : g.HoldsOf ms) : g.Owned where
  capability := fun hn _ hc => h.owner hn hc
  requirement := fun hn _ hr => h.requirer hn hr

/-! ## Looking modules up -/

theorem nodup_ids : g.ids.Nodup := List.nodup_range

/-- A module is found by what it is but for owners. -/
theorem find?_congr {m m' : Module} (h : m.unowned = m'.unowned) : g.find? m = g.find? m' := by
  rw [find?, find?, h]

theorem get?_of_find? {m : Module} {id : ModuleId} (h : g.find? m = some id) :
    ∃ n, g.get? id = some n ∧ n.unowned = m.unowned := by
  obtain ⟨hlt, hsame, -⟩ := List.findIdx?_eq_some_iff_getElem.1 h
  exact ⟨_, List.getElem?_eq_getElem hlt, eq_of_beq hsame⟩

/-- A module that is not there is put in behind all others. -/
theorem get?_insert_of_find?_none {m : Module} (h : g.find? m = none) (id : ModuleId) :
    (g.insert m).1.get? id = if id = g.size then some (m.ownedBy g.size) else g.get? id := by
  rw [insert_of_find?_none h]
  rcases Nat.lt_trichotomy id g.size with hid | rfl | hid
  · rw [if_neg (Nat.ne_of_lt hid)]
    exact List.getElem?_append_left hid
  · simp [get?, size]
  · have hle : g.modules.length ≤ id := Nat.le_of_lt hid
    have hle' : (g.modules ++ [m.ownedBy g.size]).length ≤ id := by
      rw [List.length_append]
      exact hid
    rw [if_neg (Nat.ne_of_gt hid), get?, get?, List.getElem?_eq_none hle,
      List.getElem?_eq_none hle']

theorem isSome_find?_iff {m : Module} :
    (g.find? m).isSome = true ↔ ∃ n ∈ g.modules, n.unowned = m.unowned := by
  simp [find?, List.findIdx?_isSome]

theorem modules_subset_insert (g : Graph) (m : Module) : g.modules ⊆ (g.insert m).1.modules := by
  unfold insert
  split
  · exact List.Subset.refl _
  · exact List.subset_append_left _ _

theorem isSome_find?_insert (m : Module) : ((g.insert m).1.find? m).isSome = true := by
  rw [isSome_find?_iff]
  obtain ⟨n, hn, hsame⟩ := get?_insert_new g m
  exact ⟨n, List.mem_of_getElem? hn, hsame⟩

/-- No module is held at two places. -/
def Distinct (g : Graph) : Prop :=
  ∀ i j n n', g.get? i = some n → g.get? j = some n' → n.unowned = n'.unowned → i = j

theorem distinct_empty : empty.Distinct := by
  intro i j n n' hi
  simp [get?, empty] at hi

theorem Distinct.insert (h : g.Distinct) (m : Module) : (g.insert m).1.Distinct := by
  cases hfind : g.find? m with
  | some id => rwa [insert_of_find?_some hfind]
  | none =>
    have hnew {i n} (hi : g.get? i = some n) (hsame : n.unowned = m.unowned) : False := by
      have hsome := isSome_find?_iff.2 ⟨n, List.mem_of_getElem? hi, hsame⟩
      rw [hfind] at hsome
      cases hsome
    intro i j n n' hi hj hsame
    rw [get?_insert_of_find?_none hfind] at hi hj
    split at hi <;> split at hj
    · next hi' hj' => exact hi'.trans hj'.symm
    · obtain rfl := Option.some.inj hi
      rw [Module.unowned_ownedBy] at hsame
      exact (hnew hj hsame.symm).elim
    · obtain rfl := Option.some.inj hj
      rw [Module.unowned_ownedBy] at hsame
      exact (hnew hi hsame).elim
    · exact h i j n n' hi hj hsame

/-! ## Graphs of lists -/

theorem ofList_snoc (ms : List Module) (m : Module) :
    ofList (ms ++ [m]) = ((ofList ms).insert m).1 := by
  rw [ofList, List.foldl_append]
  rfl

/-- The graph of a list holds nothing but the modules of the list. -/
theorem holdsOf_ofList (ms : List Module) : (ofList ms).HoldsOf ms := by
  induction ms using List.reverseRecOn with
  | nil => exact holdsOf_empty
  | append_singleton ms m ih =>
    rw [ofList_snoc]
    exact (ih.mono (List.subset_append_left _ _)).insert (by simp)

theorem distinct_ofList (ms : List Module) : (ofList ms).Distinct := by
  induction ms using List.reverseRecOn with
  | nil => exact distinct_empty
  | append_singleton ms m ih =>
    rw [ofList_snoc]
    exact ih.insert m

/-- Every module of a list has a place in the graph of the list. -/
theorem exists_find?_ofList {m : Module} (hm : m ∈ ms) : ∃ id, (ofList ms).find? m = some id := by
  rw [← Option.isSome_iff_exists]
  induction ms using List.reverseRecOn with
  | nil => cases hm
  | append_singleton ms m' ih =>
    rw [ofList_snoc]
    rcases List.mem_append.1 hm with hm | hm
    · obtain ⟨n, hn, hsame⟩ := isSome_find?_iff.1 (ih hm)
      exact isSome_find?_iff.2 ⟨n, modules_subset_insert _ m' hn, hsame⟩
    · obtain rfl := List.mem_singleton.1 hm
      exact isSome_find?_insert m

/-! ## Graphs that grow -/

/-- Put modules in, one after the other. -/
def insertAll (g : Graph) (ms : List Module) : Graph :=
  ms.foldl (fun g m => (g.insert m).1) g

/-- Modules keep their places and contents when others are put in. -/
theorem get?_insertAll {id : ModuleId} {n : Module} (h : g.get? id = some n) :
    (g.insertAll ms).get? id = some n := by
  induction ms generalizing g with
  | nil => exact h
  | cons m ms ih =>
    refine ih ?_
    rw [get?_insert_old m (List.getElem?_eq_some_iff.1 h).1, h]

/-! ## The same modules at other places -/

/-- Two graphs hold the same modules, which may lie at other places. -/
def Rearranges (g g' : Graph) : Prop :=
  (g.modules.map Module.unowned).Perm (g'.modules.map Module.unowned)

/-- The same module lies at the place `i` of `g` and at the place `i'` of `g'`. -/
def Counterpart (g g' : Graph) (i i' : ModuleId) : Prop :=
  ∃ n n', g.get? i = some n ∧ g'.get? i' = some n' ∧ n'.unowned = n.unowned

/-- Every module lies somewhere in a rearranged graph. -/
theorem Rearranges.exists_counterpart {g' : Graph} (h : g.Rearranges g') {i : ModuleId}
    {n : Module} (hn : g.get? i = some n) : ∃ i', g.Counterpart g' i i' := by
  have hmem : n.unowned ∈ g'.modules.map Module.unowned :=
    h.mem_iff.1 (List.mem_map_of_mem (List.mem_of_getElem? hn))
  obtain ⟨n', hn', hsame⟩ := List.mem_map.1 hmem
  obtain ⟨i', hi'⟩ := List.mem_iff_getElem?.1 hn'
  exact ⟨i', n, n', hn, hi', hsame⟩

theorem Distinct.nodup (h : g.Distinct) : (g.modules.map Module.unowned).Nodup := by
  rw [List.Nodup, List.pairwise_map, List.pairwise_iff_getElem]
  intro i j hi hj hij hsame
  have hplace := h i j _ _ (List.getElem?_eq_getElem hi) (List.getElem?_eq_getElem hj) hsame
  exact Nat.ne_of_lt hij hplace

/-- The graph of a list has the modules of the list, each of them once. -/
theorem mem_modules_ofList {u : Module} :
    u ∈ (ofList ms).modules.map Module.unowned ↔ u ∈ ms.map Module.unowned := by
  constructor
  · intro hu
    obtain ⟨n, hn, rfl⟩ := List.mem_map.1 hu
    obtain ⟨i, hi⟩ := List.mem_iff_getElem?.1 hn
    obtain ⟨m, hm, rfl⟩ := holdsOf_ofList ms i n hi
    exact List.mem_map.2 ⟨m, hm, (Module.unowned_ownedBy m i).symm⟩
  · intro hu
    obtain ⟨m, hm, rfl⟩ := List.mem_map.1 hu
    obtain ⟨id, hid⟩ := exists_find?_ofList hm
    obtain ⟨n, hn, hsame⟩ := get?_of_find? hid
    exact List.mem_map.2 ⟨n, List.mem_of_getElem? hn, hsame⟩

/-- **The order of a list only decides where its modules lie.** -/
theorem rearranges_ofList (h : ms.Perm ms') : (ofList ms).Rearranges (ofList ms') := by
  refine (List.perm_ext_iff_of_nodup (distinct_ofList ms).nodup (distinct_ofList ms').nodup).2 ?_
  intro u
  rw [mem_modules_ofList, mem_modules_ofList]
  exact (h.map Module.unowned).mem_iff

end Graph

end StartOrder
