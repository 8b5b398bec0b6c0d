/-!
# Files

A machine stores a tree of directories and files, and a program runs in one of the directories. A
path that begins with a slash leads on from the root of the tree, and any other path from the
directory in which the program runs. Nothing lies above the root.

## Main definitions

* `FileContent`, `FileTree`: what a file holds, and the tree
* `Machine`: a tree and the directory in which the program runs
* `Path.join`: the path of an entry in a directory
* `Machine.locate`: what lies at a path, or why nothing can be found there
* `FileTree.putAt`: a tree with a file or directory added
-/

namespace StartOrder

/-- What a file holds: a text, or bytes that are no text. -/
inductive FileContent where
  | text (s : String)
  | binary (size : Nat)
deriving DecidableEq, Repr

namespace FileContent

/-- The number of bytes. -/
def size : FileContent → Nat
  | text s => s.utf8ByteSize
  | binary n => n

/-- The content that bytes make up, a text if they are valid UTF-8. -/
def ofBytes (bytes : ByteArray) : FileContent :=
  match String.fromUTF8? bytes with
  | some s => text s
  | none => binary bytes.size

end FileContent

/-- A file, or a directory with named entries. -/
inductive FileTree where
  | file (content : FileContent)
  | directory (entries : List (String × FileTree))

/-- Why nothing can be found at a path. -/
inductive Absence where
  /-- There is no entry of that name. -/
  | missing
  /-- The way leads through a file, or the path or a name in it is impossible. -/
  | blocked
deriving DecidableEq, Repr

namespace Path

/-- The parts of a path between its slashes. -/
def parts (path : String) : List String :=
  (path.toList.splitOn '/').map String.ofList

/-- Whether a path begins at the root of the machine. -/
def isAbsolute (path : String) : Bool :=
  path.toList.head? == some '/'

/-- The path of `name` in the directory at `path`. -/
def join (path name : String) : String :=
  if isAbsolute name || path.isEmpty then name
  else if path.toList.getLast? == some '/' then path ++ name
  else path ++ "/" ++ name

/-- The greatest length of a name in bytes. -/
def nameLimit : Nat := 255

/-- The greatest length of a path in bytes. -/
def limit : Nat := 4095

/-- Whether nothing can be looked for at a path. -/
def isImpossible (path : String) : Bool :=
  path.toList.contains '\x00' || limit < path.utf8ByteSize

end Path

namespace FileTree

/-- Follow the parts of a path from a tree, where `above` are the directories above it. A step
upwards from the root stays there. -/
def walk : List String → FileTree → (above : List FileTree) → Except Absence FileTree
  | [], t, _ => .ok t
  | _ :: _, file _, _ => .error .blocked
  | name :: names, directory es, above =>
    if name = "" ∨ name = "." then walk names (directory es) above
    else if name = ".." then
      match above with
      | [] => walk names (directory es) []
      | t :: ts => walk names t ts
    else if Path.nameLimit < name.utf8ByteSize then .error .blocked
    else
      match es.lookup name with
      | none => .error .missing
      | some t => walk names t (directory es :: above)

/-- A tree with `leaf` at the end of a path of names. What is in the way is replaced, but a
directory that is there already stays as it is. -/
def put (leaf : FileTree) : List String → FileTree → FileTree
  | [], t =>
    match leaf, t with
    | directory [], directory es => directory es
    | _, _ => leaf
  | name :: names, t =>
    let es := match t with
      | directory es => es
      | file _ => []
    let sub := put leaf names ((es.lookup name).getD (directory []))
    directory (es.filter (·.1 != name) ++ [(name, sub)])

/-- A tree with `leaf` at the end of a path of names and steps upwards that begins in a directory
whose names are `above`, the last one first. The directories before a step upwards are made. -/
def putFrom (leaf : FileTree) (above : List String) : List String → FileTree → FileTree
  | [], root => put leaf above.reverse root
  | name :: names, root =>
    if name = ".." then putFrom leaf above.tail names (put (directory []) above.reverse root)
    else putFrom leaf (name :: above) names root

/-- A tree with `leaf` at a path. -/
def putAt (root : FileTree) (path : String) (leaf : FileTree) : FileTree :=
  putFrom leaf [] ((Path.parts path).filter fun name => name != "" && name != ".") root

end FileTree

/-- What a machine stores, and where the program runs. -/
structure Machine where
  root : FileTree
  /-- The names that lead from the root to the directory in which the program runs. -/
  workingDirectory : List String

namespace Machine

/-- A machine that stores nothing but the directory in which the program runs. -/
def ofTree (t : FileTree) : Machine where
  root := .directory [("work", t)]
  workingDirectory := ["work"]

instance : Coe FileTree Machine := ⟨ofTree⟩

/-- The names to follow from the root for a path. -/
def route (machine : Machine) (path : String) : List String :=
  if Path.isAbsolute path then Path.parts path
  else machine.workingDirectory ++ Path.parts path

/-- What lies at a path. Nothing lies at the empty path. -/
def locate (machine : Machine) (path : String) : Except Absence FileTree :=
  if Path.isImpossible path then .error .blocked
  else if path.isEmpty then .error .missing
  else machine.root.walk (machine.route path) []

/-- The content of the file at a path, if one lies there. -/
def fileAt? (machine : Machine) (path : String) : Option FileContent :=
  match machine.locate path with
  | .ok (.file content) => some content
  | _ => none

/-- The text of the file at a path. Nothing is given for a file that is missing, and an error
for a directory, a file that is no text and a path that is blocked. -/
def textAt (machine : Machine) (path : String) : Except Unit (Option String) :=
  match machine.locate path with
  | .ok (.file (.text s)) => .ok (some s)
  | .error .missing => .ok none
  | _ => .error ()

end Machine

end StartOrder
