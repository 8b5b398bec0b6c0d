import StartOrder.Text.Blank

/-!
# Artifact coordinates

An artifact is named by group, artifact and version, written with colons, or with slashes
between them. A text with a slash anywhere is read with slashes, so colons in it are ordinary
characters.

## Main definitions

* `Artifact`, `Artifact.parse`, `Artifact.render`: coordinates and their written form
-/

namespace StartOrder

/-- The coordinates of an artifact. The version is a text, not a parsed version. -/
structure Artifact where
  group : String
  artifact : String
  version : String
deriving DecidableEq, Repr, Inhabited

namespace Artifact

/-- The coordinates that characters denote: three parts, none of them empty. -/
def read (s : List Char) : Option Artifact :=
  let text := Text.trim s
  let mark := if '/' ∈ text then '/' else ':'
  match text.splitOn mark with
  | [group, artifact, version] =>
    if group.isEmpty || artifact.isEmpty || version.isEmpty then none
    else some ⟨String.ofList group, String.ofList artifact, String.ofList version⟩
  | _ => none

/-- The coordinates that a text denotes, if it has the form of coordinates. -/
def parse? (text : String) : Option Artifact :=
  read text.toList

/-- The text of coordinates, with colons. -/
def render (a : Artifact) : String :=
  s!"{a.group}:{a.artifact}:{a.version}"

end Artifact

end StartOrder
