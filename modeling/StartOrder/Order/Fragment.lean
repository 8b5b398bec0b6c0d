import StartOrder.Wiring.Provider

/-!
# Fragments and their hosts

A fragment starts immediately before its host. The host is the first module of the order that
offers a capability in the host namespace which the filter of the fragment's requirement accepts,
or that offers itself as a whole under the name that the requirement keeps.

## Main definitions

* `Fragment.hostRequirement`: the one requirement for a host
* `Fragment.isHost`: whether a module is a host for a requirement
* `Fragment.promote`, `Fragment.promoteAll`: one fragment, and all fragments, before their hosts
-/

namespace StartOrder.Fragment

/-- The requirement of a module for a host, if it has one. More than one is refused. -/
def hostRequirement (m : Module) : Except Error (Option Requirement) :=
  match m.hostRequirements with
  | [] => .ok none
  | [r] => .ok (some r)
  | rs => .error (.severalHosts m.identity rs.length)

/-- Whether a module offers itself as a whole under the name that a requirement keeps. -/
def isNamed (m : Module) (r : Requirement) : Bool :=
  (r.text? Vocabulary.host).any fun name =>
    (m.capabilitiesIn Vocabulary.bundle).any fun c => c.text? Vocabulary.bundle == some name

/-- Whether a module is a host for a requirement. A malformed filter is only noticed when there
is a capability to test. -/
def isHost (m : Module) (r : Requirement) : Except Filter.Malformed Bool :=
  let offered := m.capabilitiesIn Vocabulary.host
  if r.filter?.isSome && !offered.isEmpty then
    r.predicate.map fun test => offered.any (test ·.attributes) || isNamed m r
  else .ok (isNamed m r)

/-- The first host for a requirement in an order, the fragment itself left aside. -/
def firstHost (g : Graph) (fragment : ModuleId) (r : Requirement) :
    List ModuleId → Except Filter.Malformed (Option ModuleId)
  | [] => .ok none
  | id :: ids =>
    if id = fragment then firstHost g fragment r ids
    else
      match g.get? id with
      | none => firstHost g fragment r ids
      | some m => do
        if ← isHost m r then return some id
        firstHost g fragment r ids

/-- An order in which a fragment comes immediately before a host. -/
def moveTo (fragment host : ModuleId) (order : List ModuleId) : List ModuleId :=
  match order.idxOf? fragment, order.idxOf? host with
  | some i, some j =>
    if i + 1 = j then order
    else
      let rest := order.eraseIdx i
      rest.insertIdx ((rest.idxOf? host).getD j) fragment
  | _, _ => order

/-- Put a fragment before its host, if there is one. -/
def promote (g : Graph) (order : List ModuleId) (fragment : ModuleId × Requirement) :
    Except Error (List ModuleId) :=
  match firstHost g fragment.1 fragment.2 order with
  | .error m => .error (.filter m)
  | .ok none => .ok order
  | .ok (some host) => .ok (moveTo fragment.1 host order)

/-- A module as a fragment with its requirement for a host, if it is one. -/
def asFragment (g : Graph) (id : ModuleId) : Except Error (List (ModuleId × Requirement)) :=
  match g.get? id with
  | none => .ok []
  | some m => (hostRequirement m).map fun r => r.toList.map (id, ·)

/-- The fragments of an order with their requirements for hosts. -/
def fragments (g : Graph) (order : List ModuleId) : Except Error (List (ModuleId × Requirement)) :=
  (order.mapM (asFragment g)).map List.flatten

/-- Put all fragments before their hosts, one after the other as they come in the order. -/
def promoteAll (g : Graph) (order : List ModuleId) : Except Error (List ModuleId) := do
  (← fragments g order).foldlM (promote g) order

end StartOrder.Fragment
