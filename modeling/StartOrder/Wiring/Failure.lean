import StartOrder.Module

/-!
# Failures of resolution

Why a module cannot be resolved: requirements stay open that may not, or there is no module at
the place.
-/

namespace StartOrder.Wiring

/-- Why a module cannot be resolved. -/
inductive Failure where
  /-- The requirements, in order of declaration, have no provider that can be resolved. -/
  | unsatisfied (module : Identity) (requirements : List Requirement)
  /-- No module lies at the place. -/
  | unknown (id : ModuleId)
deriving DecidableEq, Repr

namespace Failure

/-- The module as reports name it. -/
def subject : Failure → String
  | unsatisfied m _ => m.render
  | unknown id => ModuleId.render id

/-- The requirements that stay open. -/
def requirements : Failure → List Requirement
  | unsatisfied _ rs => rs
  | unknown _ => []

/-- The wording of a failure. -/
def message (f : Failure) : String :=
  let open_ := String.intercalate ", " (f.requirements.map Requirement.render)
  s!"Module {f.subject} cannot be resolved, unsatisfied requirements: [{open_}]"

end Failure

end StartOrder.Wiring
