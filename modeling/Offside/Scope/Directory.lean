/-!
# `Offside.Scope.Directory`: directories by their components

Two texts can name one directory: repeated slashes, a slash at the end and a `.` between
slashes make no difference. `components` is what remains: the root where the text begins
with a slash, a leading `.`, each `..`, and the names. One directory includes another if its
components begin the other's.
-/

set_option autoImplicit false

namespace Offside.Scope.Directory

/-- A step of a path. -/
inductive Component where
  /-- The root of the file system. -/
  | root
  /-- The current directory, which counts at the beginning of a relative path only. -/
  | here
  /-- The directory above. -/
  | above
  /-- A file or directory of the given name. -/
  | named (name : List Char)
deriving DecidableEq, Repr

/-- The parts of a text between its slashes; there is one more than there are slashes. -/
def parts : List Char → List (List Char)
  | [] => [[]]
  | c :: cs =>
    if c = '/' then [] :: parts cs
    else
      match parts cs with
      | [] => [[c]]
      | p :: ps => (c :: p) :: ps

/-- The step that a part of a path stands for, if it stands for any. -/
def component? (part : List Char) : Option Component :=
  if part = [] ∨ part = ['.'] then none
  else if part = ['.', '.'] then some .above
  else some (.named part)

/-- Where a path starts from, if it says so. -/
def anchor (path : List Char) : List Component :=
  if path.head? = some '/' then [.root]
  else if (parts path).head? = some ['.'] then [.here]
  else []

/-- The steps of a path. -/
def components (path : List Char) : List Component :=
  anchor path ++ (parts path).filterMap component?

/-- Whether the second directory is the first one or lies below it. -/
def includes (outer inner : String) : Bool :=
  (components outer.toList).isPrefixOf (components inner.toList)

end Offside.Scope.Directory
