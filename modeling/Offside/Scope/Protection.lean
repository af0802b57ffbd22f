/-!
# `Offside.Scope.Protection`: how far a variable can be seen

Every binding is protected in one of four ways, each with a reserved word of the language.
`ofKeyword?_eq_some_iff` says that these four words are read back and no others.
-/

set_option autoImplicit false

namespace Offside.Scope

/-- Who may see a variable from outside the context that binds it. -/
inductive Protection where
  /-- Everyone. -/
  | everyone
  /-- Contexts whose chain stays in their own group. -/
  | group
  /-- Scripts in the directory of the owner's script or below it. -/
  | directory
  /-- The context that binds it. -/
  | owner
deriving DecidableEq, Repr

namespace Protection

/-- The protection of a variable that is declared without one. -/
def standard : Protection := everyone

/-- The reserved word of a protection. -/
def keyword : Protection → String
  | everyone => "public"
  | group => "group"
  | directory => "directory"
  | owner => "private"

/-- The protections from the widest to the narrowest. -/
def all : List Protection := [everyone, group, directory, owner]

/-- The protection of a reserved word, if it names one. -/
def ofKeyword? (word : String) : Option Protection := all.find? (fun p => p.keyword == word)

/-- Reading a word gives exactly the protection that is written so. -/
theorem ofKeyword?_eq_some_iff {word : String} {p : Protection} :
    ofKeyword? word = some p ↔ p.keyword = word := by
  constructor
  · intro h
    simpa using List.find?_some h
  · rintro rfl
    cases p <;> decide

end Protection

end Offside.Scope
