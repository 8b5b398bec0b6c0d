import StartOrder.Order.Fragment
import StartOrder.Order.Placement

/-!
# The start order

The modules to be started come with handles, which may be shared. They form a graph together with
the stand-in for the launch interface and the platform itself. Each module is resolved in turn,
the resolutions are merged into one order, fragments are put before their hosts, and the handles
are reported in the order of their first modules.

## Main definitions

* `Orderer`: the platform and what limits the wiring
* `Orderer.entryGraph`, `Orderer.pool`, `Orderer.placement`, `Orderer.moduleOrder`: the stages
* `Orderer.order`: the handles in start order
-/

namespace StartOrder

open Wiring (Pool)

/-- What the start order of modules depends on beside the modules. -/
structure Orderer where
  /-- What limits the wiring. -/
  filters : List Hook := []
  /-- The platform. -/
  framework : Module
  /-- The coordinates of the launch interface. -/
  launchArtifact : Artifact
  /-- The module for the launch interface when it has no manifest. -/
  launchApi : Module
  /-- Capabilities that the platform adds to those it declares. -/
  hosted : List Capability := []

namespace Orderer

variable {α : Type}

/-- The graph of modules and the first handle of each. -/
def entryGraph (entries : List (Module × α)) : Graph × List (ModuleId × α) :=
  entries.foldl (fun (g, handles) (m, handle) =>
    let (g, id) := g.insert m
    (g, if (handles.lookup id).isSome then handles else handles ++ [(id, handle)]))
    (Graph.empty, [])

/-- The candidates for wires: the modules, the launch interface, and the platform with what it
adds. -/
def pool (o : Orderer) (launchApi : Module) (g : Graph) : Pool :=
  let (g, framework) := (g.insert launchApi).1.insert o.framework
  { graph := g, hosted := o.hosted.map (·.ownedBy framework), filters := o.filters }

/-- Resolve and place one module unless it has a place. -/
def placeModule (pool : Pool) (p : Placement) (id : ModuleId) : Except Error Placement :=
  if id ∈ p.order then .ok p
  else (Wiring.resolve pool [id]).map p.merge

/-- The placement of all modules, each resolved in turn. -/
def placement (pool : Pool) : Except Error Placement :=
  pool.graph.ids.foldlM (placeModule pool) {}

/-- All modules in start order. -/
def moduleOrder (pool : Pool) : Except Error (List ModuleId) := do
  Fragment.promoteAll pool.graph (← placement pool).order

/-- The handles of modules in an order, each at its first place. -/
def report [BEq α] (handles : List (ModuleId × α)) (order : List ModuleId) : List α :=
  (order.filterMap fun id => handles.lookup id).foldl
    (fun hs h => if hs.contains h then hs else hs ++ [h]) []

/-- The handles of modules in start order, with a given module for the launch interface. -/
def orderWith [BEq α] (o : Orderer) (launchApi : Module) (entries : List (Module × α)) :
    Except Error (List α) := do
  let (g, handles) := entryGraph entries
  if handles.isEmpty then return []
  for m in g.modules do
    let _ ← Fragment.hostRequirement m
  return report handles (← moduleOrder (o.pool launchApi g))

/-- The handles of modules in start order. -/
def order [BEq α] (o : Orderer) (entries : List (Module × α)) : Except Error (List α) :=
  o.orderWith o.launchApi entries

end Orderer

end StartOrder
