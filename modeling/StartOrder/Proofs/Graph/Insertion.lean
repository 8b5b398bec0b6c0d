import Mathlib.Data.List.Forall2
import StartOrder.Proofs.Graph

/-!
# Modules put in one after the other

Every insertion gives a place, either that of an equal module or a new one behind all others. The
comparison leaves owners aside, and the owners of what is put in are those of the new place, so a
module may have belonged to any other graph before. After any number of insertions the graph holds
the first of each kind of module, in the order in which they came, and a place that has been given
leads to the same module for good.

## Main definitions

* `Graph.insertEach g ms`: several modules put in, with the place that each insertion gave
* `Graph.Collects ms g ids`: what a graph is after the modules `ms` have been put in

## Main results

* `Graph.modules_ofList`: the modules of a graph are first occurrences, in order
* `Graph.collects_insertEach`: what insertions into the empty graph come to
-/

namespace StartOrder

/-- The owners of a module do not matter once it has a place. -/
theorem Module.ownedBy_unowned (m : Module) (id : ModuleId) :
    m.unowned.ownedBy id = m.ownedBy id := by
  simp [unowned, ownedBy, Function.comp_def, Capability.ownedBy, Capability.unowned,
    Requirement.ownedBy, Requirement.unowned]

namespace Graph

variable {g : Graph} {ms : List Module} {m : Module}

/-! ## Places -/

/-- Put modules in, one after the other, and give the place of each. -/
def insertEach (g : Graph) : List Module → Graph × List ModuleId
  | [] => (g, [])
  | m :: ms =>
    let (g, id) := g.insert m
    let (g, ids) := g.insertEach ms
    (g, id :: ids)

theorem insertEach_cons (g : Graph) (m : Module) (ms : List Module) :
    g.insertEach (m :: ms) =
      (((g.insert m).1.insertEach ms).1, (g.insert m).2 :: ((g.insert m).1.insertEach ms).2) :=
  rfl

theorem fst_insertEach (g : Graph) (ms : List Module) : (g.insertEach ms).1 = g.insertAll ms := by
  induction ms generalizing g with
  | nil => rfl
  | cons m ms ih => exact ih (g.insert m).1

/-- Places that have been given are not given up by further insertions. -/
theorem insertEach_append (g : Graph) (ms more : List Module) :
    g.insertEach (ms ++ more) =
      (((g.insertEach ms).1.insertEach more).1,
        (g.insertEach ms).2 ++ ((g.insertEach ms).1.insertEach more).2) := by
  induction ms generalizing g with
  | nil => rfl
  | cons m ms ih =>
    rw [List.cons_append, insertEach_cons, insertEach_cons, ih (g.insert m).1]
    rfl

/-- Each place that an insertion gives holds a module equal to the one put in, also when further
modules have been put in behind it. -/
theorem placed_insertEach (g : Graph) (ms : List Module) :
    List.Forall₂ (fun m id => ∃ n, (g.insertEach ms).1.get? id = some n ∧ n.unowned = m.unowned)
      ms (g.insertEach ms).2 := by
  induction ms generalizing g with
  | nil => exact .nil
  | cons m ms ih =>
    obtain ⟨n, hn, hsame⟩ := get?_insert_new g m
    have hkept : ((g.insert m).1.insertEach ms).1.get? (g.insert m).2 = some n := by
      rw [fst_insertEach]
      exact get?_insertAll hn
    exact .cons ⟨n, hkept, hsame⟩ (ih (g.insert m).1)

/-! ## What is kept -/

theorem prefix_insert (g : Graph) (m : Module) : g.modules <+: (g.insert m).1.modules := by
  cases hfind : g.find? m with
  | some id =>
    refine ⟨[], ?_⟩
    rw [insert_of_find?_some hfind, List.append_nil]
  | none =>
    refine ⟨[m.ownedBy g.size], ?_⟩
    rw [insert_of_find?_none hfind]

/-- Insertions leave the modules of a graph where they are. -/
theorem prefix_insertAll (g : Graph) (ms : List Module) :
    g.modules <+: (g.insertAll ms).modules := by
  induction ms generalizing g with
  | nil => exact List.prefix_rfl
  | cons m ms ih => exact (prefix_insert g m).trans (ih (g.insert m).1)

/-! ## First occurrences -/

/-- A module is found in the graph of a list when the list has an equal one. -/
theorem isSome_find?_ofList_iff :
    ((ofList ms).find? m).isSome = true ↔ m.unowned ∈ ms.map Module.unowned := by
  rw [isSome_find?_iff, ← mem_modules_ofList, List.mem_map]

theorem eraseDups_snoc {α : Type} [BEq α] [LawfulBEq α] (as : List α) (a : α) :
    (as ++ [a]).eraseDups = if a ∈ as then as.eraseDups else as.eraseDups ++ [a] := by
  rw [List.eraseDups_append]
  by_cases ha : a ∈ as <;> simp [List.removeAll, ha, List.eraseDups_cons]

/-- **The graph of a list holds its first occurrences, in order.** -/
theorem modules_ofList (ms : List Module) :
    (ofList ms).modules = (ms.map Module.unowned).eraseDups.mapIdx fun i m => m.ownedBy i := by
  induction ms using List.reverseRecOn with
  | nil => rfl
  | append_singleton ms m ih =>
    rw [ofList_snoc, List.map_append, List.map_singleton, eraseDups_snoc]
    cases hfind : (ofList ms).find? m with
    | some id =>
      have hmem : m.unowned ∈ ms.map Module.unowned := by
        rw [← isSome_find?_ofList_iff, hfind]
        rfl
      rw [insert_of_find?_some hfind, if_pos hmem, ih]
    | none =>
      have hnew : m.unowned ∉ ms.map Module.unowned := by
        rw [← isSome_find?_ofList_iff, hfind]
        exact Bool.false_ne_true
      have hsize : (ofList ms).size = (ms.map Module.unowned).eraseDups.length := by
        rw [size, ih, List.length_mapIdx]
      rw [insert_of_find?_none hfind, if_neg hnew, List.mapIdx_concat, ih, hsize,
        Module.ownedBy_unowned]

/-! ## Insertions into the empty graph -/

/-- What a graph is after the modules `ms` have been put in, the insertions giving the places
`ids`. -/
structure Collects (ms : List Module) (g : Graph) (ids : List ModuleId) : Prop where
  /-- No two modules are equal but for owners. -/
  distinct : g.Distinct
  /-- Capabilities and requirements belong to the place of their module. -/
  owned : g.Owned
  /-- Each insertion has given the place of a module that is equal to the one put in. -/
  placed : List.Forall₂ (fun m id => ∃ n, g.get? id = some n ∧ n.unowned = m.unowned) ms ids
  /-- The modules are the first occurrences of those put in, in order, and have got owners. -/
  modules : g.modules = (ms.map Module.unowned).eraseDups.mapIdx fun i m => m.ownedBy i

/-- **What insertions come to**, whatever owners the modules had before. What is put in later
changes neither the modules that are there nor the places that have been given. -/
theorem collects_insertEach (ms more : List Module) :
    Collects ms (empty.insertEach ms).1 (empty.insertEach ms).2 ∧
      (empty.insertEach ms).1.modules <+: (empty.insertEach (ms ++ more)).1.modules ∧
      (empty.insertEach ms).2 <+: (empty.insertEach (ms ++ more)).2 := by
  have hlist : (empty.insertEach ms).1 = ofList ms := fst_insertEach empty ms
  refine ⟨⟨?_, ?_, placed_insertEach empty ms, ?_⟩, ?_, ?_⟩
  · rw [hlist]
    exact distinct_ofList ms
  · rw [hlist]
    exact (holdsOf_ofList ms).owned
  · rw [hlist]
    exact modules_ofList ms
  · rw [insertEach_append, fst_insertEach _ more]
    exact prefix_insertAll _ more
  · rw [insertEach_append]
    exact List.prefix_append _ _

-- A module that comes again, with owners from elsewhere, gets the place of the first one.
example :
    let lamp : Module :=
      { identity := { symbolicName := "lamp", version := .zero }
        capabilities := [{ ns := "light" }] }
    let cable : Module := { identity := { symbolicName := "cable", version := .zero } }
    (empty.insertEach [lamp, cable, lamp.ownedBy 7]) =
      (⟨[lamp.ownedBy 0, cable.ownedBy 1]⟩, [0, 1, 0]) := by
  decide +kernel

end Graph

end StartOrder
