import StartOrder.Wiring.Resolution

/-!
# Placement

The order of modules is put together from one resolution after the other. A module that is new
goes to the end, and then every provider that is known of it is put before it, then the providers
of these, and so on. Modules are only moved forward, so a move can only disturb the providers of
the module that is moved. A cycle ends where it would come back to a module whose providers are
being placed.

## Main definitions

* `Placement`: the order so far and the providers that are known
* `Placement.moveBefore?`: one provider put before a module
* `Placement.place`: all providers of a module put before it
* `Placement.add`, `Placement.merge`: an entry and a resolution added

## Main results

* `Placement.unentered_cons_lt`: each nested placement has fewer modules left to enter, so that
  every placement ends
-/

namespace StartOrder

open Wiring (Wire Entry Resolution)

/-- The order so far, and for each module in it the providers to which it is wired. -/
structure Placement where
  order : List ModuleId := []
  providers : List (ModuleId × List ModuleId) := []
deriving DecidableEq, Repr

namespace Placement

/-- An order in which `provider` comes before `requirer`, and whether it had to be moved there.
Nothing is given when the requirer has no place. -/
def moveBefore? (order : List ModuleId) (requirer provider : ModuleId) :
    Option (List ModuleId × Bool) :=
  match order.idxOf? requirer with
  | none => none
  | some place =>
    match order.idxOf? provider with
    | none => some (order.insertIdx place provider, true)
    | some i =>
      if i < place then some (order, false)
      else some ((order.eraseIdx i).insertIdx place provider, true)

/-- The order while providers are placed, and the modules whose providers have been placed and
that have not moved since. -/
structure Pass where
  order : List ModuleId
  checked : List ModuleId := []
deriving DecidableEq, Repr

/-- Put providers before a module, each with its own providers by `enter` unless those have been
placed. -/
def placeEach (enter : Pass → ModuleId → Pass) (requirer : ModuleId) : Pass → List ModuleId → Pass
  | s, [] => s
  | s, p :: ps =>
    match moveBefore? s.order requirer p with
    | none => placeEach enter requirer s ps
    | some (order, moved) =>
      let s : Pass :=
        { order, checked := if moved then s.checked.filter (· ≠ p) else s.checked }
      placeEach enter requirer (if p ∈ s.checked then s else enter s p) ps

/-- The modules with known providers that are not on the path. -/
def unentered (providers : List (ModuleId × List ModuleId)) (path : List ModuleId) :
    List ModuleId :=
  (providers.map Prod.fst).filter (· ∉ path)

/-- Entering a module leaves fewer modules to enter. -/
theorem unentered_cons_lt {providers : List (ModuleId × List ModuleId)} {path : List ModuleId}
    {id : ModuleId} (hid : id ∈ providers.map Prod.fst) (hnew : id ∉ path) :
    (unentered providers (id :: path)).length < (unentered providers path).length := by
  have step : unentered providers (id :: path) = (unentered providers path).filter (· ≠ id) := by
    simp only [unentered, List.filter_filter]
    refine List.filter_congr fun x _ => ?_
    by_cases h : x = id <;> simp [h]
  rw [step]
  have hmem : id ∈ unentered providers path := List.mem_filter.2 ⟨hid, by simpa using hnew⟩
  exact List.length_filter_lt_length_iff_exists.2 ⟨id, hmem, by simp⟩

theorem mem_map_fst_of_lookup {providers : List (ModuleId × List ModuleId)} {id : ModuleId}
    {ps : List ModuleId} (h : providers.lookup id = some ps) : id ∈ providers.map Prod.fst := by
  induction providers with
  | nil => simp at h
  | cons e es ih =>
    obtain ⟨k, v⟩ := e
    by_cases hk : id = k
    · simp [hk]
    · rw [List.lookup_cons, beq_false_of_ne hk] at h
      exact List.mem_cons_of_mem _ (ih h)

/-- Put every known provider of a module before it, and so on for the providers. The modules on
the path are being placed and are left alone. -/
def place (providers : List (ModuleId × List ModuleId)) (path : List ModuleId) :
    Pass → ModuleId → Pass := fun s id =>
  if _entered : id ∈ path then s
  else
    match _known : providers.lookup id with
    | none => { s with checked := id :: s.checked }
    | some ps =>
      let s := placeEach (place providers (id :: path)) id s ps
      { s with checked := id :: s.checked }
termination_by (unentered providers path).length
decreasing_by exact unentered_cons_lt (mem_map_fst_of_lookup _known) _entered

/-- The other modules to which wires lead, each once, behind those that are known. -/
def addProviders (known : List ModuleId) (ws : List Wire) : List ModuleId :=
  (ws.filter fun w => !w.isSelf).foldl
    (fun known w => if w.provider ∈ known then known else known ++ [w.provider]) known

/-- The providers with those of one more entry. -/
def record (providers : List (ModuleId × List ModuleId)) (e : Entry) :
    List (ModuleId × List ModuleId) :=
  match providers.lookup e.1 with
  | none => providers ++ [(e.1, addProviders [] e.2)]
  | some known =>
    providers.map fun p => if p.1 = e.1 then (e.1, addProviders known e.2) else p

/-- Add an entry: its module goes to the end if it is new, and its providers before it. -/
def add (p : Placement) (e : Entry) : Placement :=
  let order := if e.1 ∈ p.order then p.order else p.order ++ [e.1]
  let providers := record p.providers e
  { order := (place providers [] { order } e.1).order, providers }

/-- Add the entries of a resolution in their order. -/
def merge (p : Placement) (r : Resolution) : Placement :=
  r.foldl add p

end Placement

end StartOrder
