import StartOrder.Error
import StartOrder.Filter.Grammar
import StartOrder.Filter.Matching
import StartOrder.Region.Visibility

/-!
# Providers

The providers of a requirement are the capabilities in its namespace that its filter accepts.
Capabilities that the platform adds come first, the last one added at the very front, and then
those of the modules by place. Hooks, such as region filters, remove what the requiring module may
not see.

## Main definitions

* `Requirement.predicate`, `Requirement.accepts`: what the filter of a requirement accepts
* `Wiring.Pool`: the modules, the added capabilities and the hooks
* `Wiring.Pool.providers`: the providers of a requirement, in order of preference

## Main results

* `Wiring.Pool.providers_eq`: the providers when the filter is well formed
-/

namespace StartOrder

/-- What the filter of a requirement accepts. Without a filter everything is accepted. -/
def Requirement.predicate (r : Requirement) : Except Filter.Malformed (Attributes → Bool) :=
  match r.filter? with
  | none => .ok fun _ => true
  | some text => (Filter.parse text).map fun f attributes => f.accepts attributes

/-- Whether the filter of a requirement accepts attributes. -/
def Requirement.accepts (r : Requirement) (attributes : Attributes) :
    Except Filter.Malformed Bool :=
  r.predicate.map (· attributes)

namespace Wiring

/-- Where providers come from. -/
structure Pool where
  graph : Graph
  /-- Capabilities that no module declares, with the modules that host them. -/
  hosted : List Capability := []
  filters : List Hook := []

namespace Pool

/-- The capabilities of the modules in a namespace. -/
def declared (p : Pool) (ns : String) : List Capability :=
  p.graph.capabilitiesIn ns

/-- The added capabilities in a namespace. -/
def added (p : Pool) (ns : String) : List Capability :=
  p.hosted.filter (·.ns == ns)

/-- The capabilities that a test accepts, before hooks. -/
def accepted (p : Pool) (ns : String) (test : Attributes → Bool) : List Capability :=
  ((p.added ns).filter (test ·.attributes)).reverse ++
    (p.declared ns).filter (test ·.attributes)

/-- What the hooks keep, one after the other. -/
def visible (p : Pool) (r : Requirement) (cs : List Capability) : List Capability :=
  p.filters.foldl (fun cs f => f.keep p.graph r cs) cs

/-- The providers of a requirement, in order of preference. A malformed filter is only noticed
when there is a capability to test. -/
def providers (p : Pool) (r : Requirement) : Except Filter.Malformed (List Capability) :=
  if (p.declared r.ns).isEmpty && (p.added r.ns).isEmpty then .ok (p.visible r [])
  else r.predicate.map fun test => p.visible r (p.accepted r.ns test)

/-- With a well-formed filter the providers are what it accepts and the hooks keep. -/
theorem providers_eq {p : Pool} {r : Requirement} {test : Attributes → Bool}
    (h : r.predicate = .ok test) : p.providers r = .ok (p.visible r (p.accepted r.ns test)) := by
  unfold providers
  split
  · next he =>
    simp only [Bool.and_eq_true, List.isEmpty_iff] at he
    simp [accepted, he.1, he.2]
  · rw [h]; rfl

end Pool

end Wiring

end StartOrder
