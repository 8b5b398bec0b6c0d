import StartOrder.Module

/-!
# Module graphs

A graph holds the modules that take part in a resolution, each at the place at which it was put
in. Two modules that are equal but for the owners of their contracts are one module: putting in
the second gives the place of the first.

## Main definitions

* `Graph`, `Graph.insert`, `Graph.ofList`: graphs and how they grow
* `Graph.find?`, `Graph.get?`, `Graph.ids`: looking modules up
* `Graph.capabilitiesIn`: all capabilities in a namespace, by place and declaration

## Main results

* `Graph.get?_insert_new`, `Graph.get?_insert_old`: what a graph holds after an insertion
-/

namespace StartOrder

/-- Modules by place. -/
structure Graph where
  modules : List Module := []
deriving DecidableEq, Repr

namespace Graph

/-- The graph without modules. -/
def empty : Graph := {}

/-- The number of modules. -/
def size (g : Graph) : Nat := g.modules.length

/-- The module at a place. -/
def get? (g : Graph) (id : ModuleId) : Option Module := g.modules[id]?

/-- All places, in order. -/
def ids (g : Graph) : List ModuleId := List.range g.size

/-- The place of a module that is equal to `m` but for owners. -/
def find? (g : Graph) (m : Module) : Option ModuleId :=
  g.modules.findIdx? fun n => n.unowned == m.unowned

/-- Put a module in, unless it is there, and give its place. Its contracts become those of the
place. -/
def insert (g : Graph) (m : Module) : Graph × ModuleId :=
  match g.find? m with
  | some id => (g, id)
  | none => ({ modules := g.modules ++ [m.ownedBy g.size] }, g.size)

/-- The graph of a list of modules. -/
def ofList (ms : List Module) : Graph :=
  ms.foldl (fun g m => (g.insert m).1) empty

/-- The capabilities of all modules in one namespace, by place and then by declaration. -/
def capabilitiesIn (g : Graph) (ns : String) : List Capability :=
  g.modules.flatMap (·.capabilitiesIn ns)

/-- The capabilities of a module, in one namespace or in all. Nobody and a module that is not
there have none. -/
def capabilitiesAt (g : Graph) (id : Option ModuleId) (ns : Option String) : List Capability :=
  ((id.bind g.get?).map (·.capabilitiesAmong ns)).getD []

@[simp] theorem mem_ids {g : Graph} {id : ModuleId} : id ∈ g.ids ↔ id < g.size := by
  simp [ids]

theorem get?_eq_none_iff {g : Graph} {id : ModuleId} : g.get? id = none ↔ id ∉ g.ids := by
  simp [get?, size]

theorem insert_of_find?_some {g : Graph} {m : Module} {id : ModuleId}
    (h : g.find? m = some id) : g.insert m = (g, id) := by
  simp [insert, h]

theorem insert_of_find?_none {g : Graph} {m : Module} (h : g.find? m = none) :
    g.insert m = ({ modules := g.modules ++ [m.ownedBy g.size] }, g.size) := by
  simp [insert, h]

/-- Earlier modules keep their places and contents. -/
theorem get?_insert_old {g : Graph} (m : Module) {id : ModuleId} (h : id < g.size) :
    (g.insert m).1.get? id = g.get? id := by
  unfold insert
  split
  · rfl
  · simp [get?, List.getElem?_append_left h]

/-- The place that an insertion gives holds a module equal to the one put in. -/
theorem get?_insert_new (g : Graph) (m : Module) :
    ∃ n, (g.insert m).1.get? (g.insert m).2 = some n ∧ n.unowned = m.unowned := by
  unfold insert
  split
  · next id h =>
    obtain ⟨hlt, hid, -⟩ := List.findIdx?_eq_some_iff_getElem.1 h
    exact ⟨_, List.getElem?_eq_getElem hlt, by simpa using hid⟩
  · exact ⟨m.ownedBy g.size, by simp [get?, size], by simp⟩

end Graph

end StartOrder
