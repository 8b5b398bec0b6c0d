import StartOrder.Properties
import StartOrder.Version

/-!
# Faults of membership files

Why a membership file is refused: an escape in it is malformed, or an entry does not name an
identity.
-/

namespace StartOrder.Region

/-- Why a text is not a symbolic name and a version with a tilde between them. -/
inductive IdentityFault where
  | noTilde (text : String)
  | noName (text : String)
  | version (f : Version.Fault)
deriving DecidableEq, Repr

/-- The wording of a fault in an identity. -/
def IdentityFault.message : IdentityFault → String
  | noTilde text => s!"expected symbolicName~version, got {text}"
  | noName text => s!"empty symbolic name in {text}"
  | version f => s!"Invalid version: {f.message}"

/-- Why a membership file is refused. -/
inductive Fault where
  | escape (e : Properties.BadEscape)
  | identity (artifact : String) (f : IdentityFault)
deriving DecidableEq, Repr

/-- The wording of a refusal. -/
def Fault.message : Fault → String
  | escape e => e.message
  | identity artifact f => s!"{artifact}: {f.message}"

end StartOrder.Region
