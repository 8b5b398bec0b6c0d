import StartOrder.Wiring.Provider

/-!
# Resolution

To resolve a module, each of its effective requirements is wired to the first provider whose
module is resolved, is being resolved, or can be resolved. What a provider that fails has
brought in is given up before the next one is tried. A module whose failure does not depend on
what is being resolved is remembered and not tried again. A module fails when a requirement that
is not optional stays open.

## Main definitions

* `Wiring.Wire`, `Wiring.Entry`, `Wiring.Resolution`: the results
* `Wiring.Session`: what a search knows
* `Wiring.choose`: the first provider that can be had
* `Wiring.wireAll`: the wires of a list of requirements
* `Wiring.resolveModule`: the search for one module
* `Wiring.resolve`: the search for several modules

## Main results

* `Wiring.unentered_cons_lt`: each nested search has fewer modules left to enter, so that every
  search ends
-/

namespace StartOrder.Wiring

/-- A requirement that is satisfied by a capability of a module. -/
structure Wire where
  requirer : ModuleId
  requirement : Requirement
  provider : ModuleId
  capability : Capability
deriving DecidableEq, Repr

namespace Wire

/-- Whether a module satisfies its own requirement. -/
def isSelf (w : Wire) : Bool := w.requirer == w.provider

/-- The text of a wire in reports. -/
def render (w : Wire) : String :=
  s!"{ModuleId.render w.requirer} -[{w.requirement.render}]-> {ModuleId.render w.provider}"

end Wire

/-- A module with its wires, in the order of its requirements. -/
abbrev Entry := ModuleId × List Wire

/-- The modules of a resolution, in the order in which they were completed. -/
abbrev Resolution := List Entry

/-- What a search knows: the completed modules in order and as a set, and the modules that fail
whatever else is being resolved. -/
structure Session where
  resolved : Resolution := []
  done : List ModuleId := []
  failed : List ModuleId := []
deriving DecidableEq, Repr

/-- What became of the providers of a requirement. -/
inductive Choice where
  | wired (c : Capability)
  /-- No provider can be had. With `permanent` all of them are known to fail in any case. -/
  | unavailable (permanent : Bool)
deriving DecidableEq, Repr

/-- How a module is searched for from a state: the failure, if it fails, and the state after. -/
abbrev Attempt := Session → ModuleId → Except Filter.Malformed (Option Failure × Session)

/-- The first provider that is the requirer itself, is completed or in progress, or can be
resolved. `permanent` says whether all providers passed over so far fail in any case. -/
def choose (attempt : Attempt) (inProgress : List ModuleId) (requirer : ModuleId) :
    (permanent : Bool) → Session → List Capability → Except Filter.Malformed (Choice × Session)
  | permanent, s, [] => .ok (.unavailable permanent, s)
  | permanent, s, c :: cs =>
    match c.owner with
    | none => choose attempt inProgress requirer permanent s cs
    | some p =>
      if p = requirer ∨ p ∈ s.done ∨ p ∈ inProgress then .ok (.wired c, s)
      else if p ∈ s.failed then choose attempt inProgress requirer permanent s cs
      else
        match attempt s p with
        | .error e => .error e
        | .ok (none, t) => .ok (.wired c, t)
        | .ok (some _, t) =>
          choose attempt inProgress requirer (permanent && decide (p ∈ t.failed))
            { t with resolved := t.resolved.take s.resolved.length, done := s.done } cs

/-- The wires of requirements, the requirements that stay open, and whether one of them stays
open in any case. -/
structure Progress where
  wires : List Wire := []
  unsatisfied : List Requirement := []
  permanent : Bool := false
deriving DecidableEq, Repr

/-- What the choice for a requirement adds to the progress of those behind it. -/
def Progress.add (p : Progress) (id : ModuleId) (r : Requirement) : Choice → Progress
  | .wired c => { p with wires := ⟨id, r, c.owner.getD id, c⟩ :: p.wires }
  | .unavailable permanent =>
    if r.isOptional then p
    else { p with unsatisfied := r :: p.unsatisfied, permanent := permanent || p.permanent }

/-- Wire the requirements of a module in order. Those that are not effective do not count. -/
def wireAll (pool : Pool) (attempt : Attempt) (inProgress : List ModuleId) (id : ModuleId) :
    Session → List Requirement → Except Filter.Malformed (Progress × Session)
  | s, [] => .ok ({}, s)
  | s, r :: rs =>
    if r.isEffective then do
      let candidates ← pool.providers r
      let (choice, s) ← choose attempt inProgress id true s candidates
      let (rest, s) ← wireAll pool attempt inProgress id s rs
      return (rest.add id r choice, s)
    else wireAll pool attempt inProgress id s rs

/-- The modules of a graph that are not in progress. -/
def unentered (g : Graph) (inProgress : List ModuleId) : List ModuleId :=
  g.ids.filter (· ∉ inProgress)

/-- Entering a module leaves fewer modules to enter. -/
theorem unentered_cons_lt {g : Graph} {inProgress : List ModuleId} {id : ModuleId}
    (hid : id ∈ g.ids) (hnew : id ∉ inProgress) :
    (unentered g (id :: inProgress)).length < (unentered g inProgress).length := by
  have step : unentered g (id :: inProgress) = (unentered g inProgress).filter (· ≠ id) := by
    simp only [unentered, List.filter_filter]
    refine List.filter_congr fun x _ => ?_
    by_cases h : x = id <;> simp [h]
  rw [step]
  have hmem : id ∈ unentered g inProgress := by simpa [unentered, hnew] using hid
  exact List.length_filter_lt_length_iff_exists.2 ⟨id, hmem, by simp⟩

/-- Resolve a module, unless it is completed or in progress. -/
def resolveModule (pool : Pool) (inProgress : List ModuleId) : Attempt := fun s id =>
  if _settled : id ∈ s.done ∨ id ∈ inProgress then .ok (none, s)
  else
    match _found : pool.graph.get? id with
    | none => .ok (some (.unknown id), s)
    | some m => do
      let (p, s) ← wireAll pool (resolveModule pool (id :: inProgress)) (id :: inProgress) id s
        m.requirements
      if p.unsatisfied.isEmpty then
        return (none, { s with resolved := s.resolved ++ [(id, p.wires)], done := id :: s.done })
      else
        return (some (.unsatisfied m.identity p.unsatisfied),
          if p.permanent then { s with failed := id :: s.failed } else s)
termination_by (unentered pool.graph inProgress).length
decreasing_by
  refine unentered_cons_lt ?_ fun h => _settled (.inr h)
  exact Classical.byContradiction fun h => by simp [Graph.get?_eq_none_iff.2 h] at _found

/-- Resolve modules one after the other, from a state. -/
def resolveFrom (pool : Pool) : Session → List ModuleId → Except Error Session
  | s, [] => .ok s
  | s, id :: ids =>
    match resolveModule pool [] s id with
    | .error m => .error (.filter m)
    | .ok (some f, _) => .error (.unresolvable f)
    | .ok (none, s) => resolveFrom pool s ids

/-- Resolve modules that all have to be resolved. -/
def resolve (pool : Pool) (mandatory : List ModuleId) : Except Error Resolution :=
  (resolveFrom pool {} mandatory).map Session.resolved

end StartOrder.Wiring
