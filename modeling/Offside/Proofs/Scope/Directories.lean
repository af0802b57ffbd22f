import Mathlib.Logic.Relation
import Offside.Proofs.Scope.Access

/-!
# `Offside.Proofs.Scope.Directories`: directories as an order

A slash divides a path into two that are read on their own (`parts_append`, `steps_append`), and
what stands behind one has no part in where the path starts from (`anchor_append`). So slashes that
are doubled, a slash at the end and a `.` behind a slash make no difference to the components
(`Respells`, `components_eq_of_respells`), except that a slash is all the difference for a path
that is empty.

Components order directories, by which of them lies in which. `canAccess_directory_order` says that
access by directory is that order, for all contexts that run scripts: everything that holds of the
order of components holds of access, and how the directories are spelled has no part in it.
-/

set_option autoImplicit false

namespace Offside.Scope

namespace Directory

/-! ### Paths with a slash -/

theorem parts_ne_nil (path : List Char) : parts path ≠ [] := by
  cases path with
  | nil => exact List.cons_ne_nil _ _
  | cons c cs =>
    rw [parts]
    split
    · exact List.cons_ne_nil _ _
    · split <;> exact List.cons_ne_nil _ _

/-- A slash divides the parts of a path. -/
theorem parts_append (front back : List Char) :
    parts (front ++ '/' :: back) = parts front ++ parts back := by
  induction front with
  | nil => rfl
  | cons c cs ih =>
    rw [List.cons_append, parts, parts, ih]
    split
    · rfl
    · cases hparts : parts cs with
      | nil => exact absurd hparts (parts_ne_nil cs)
      | cons p ps => rfl

/-- The steps that the parts of a path stand for. -/
def steps (path : List Char) : List Component := (parts path).filterMap component?

/-- A slash divides the steps of a path. -/
theorem steps_append (front back : List Char) :
    steps (front ++ '/' :: back) = steps front ++ steps back := by
  rw [steps, parts_append, List.filterMap_append, steps, steps]

/-- Where a path starts from is known when the first slash has been read. -/
theorem anchor_append (front back back' : List Char) :
    anchor (front ++ '/' :: back) = anchor (front ++ '/' :: back') := by
  have hhead : (front ++ '/' :: back).head? = (front ++ '/' :: back').head? := by
    cases front <;> rfl
  have hpart : (parts (front ++ '/' :: back)).head? = (parts (front ++ '/' :: back')).head? := by
    rw [parts_append, parts_append, List.head?_append_of_ne_nil _ (parts_ne_nil front),
      List.head?_append_of_ne_nil _ (parts_ne_nil front)]
  rw [anchor, anchor, hhead, hpart]

/-- A slash at the end does not change where a path starts from, if there is a path. -/
theorem anchor_concat {path : List Char} (h : path ≠ []) :
    anchor (path ++ ['/']) = anchor path := by
  have hpart : (parts (path ++ ['/'])).head? = (parts path).head? := by
    rw [parts_append, List.head?_append_of_ne_nil _ (parts_ne_nil path)]
  rw [anchor, anchor, List.head?_append_of_ne_nil _ h, hpart]

/-! ### Spellings -/

/-- The second path is the first one with one slash or one `.` more, where that makes no
difference. -/
inductive Respells : List Char → List Char → Prop where
  /-- A slash is doubled. -/
  | double (front back : List Char) :
      Respells (front ++ '/' :: back) (front ++ '/' :: '/' :: back)
  /-- A slash is put at the end of a path that is not empty. -/
  | trailing {path : List Char} : path ≠ [] → Respells path (path ++ ['/'])
  /-- A `.` and a slash are put behind a slash. -/
  | here (front back : List Char) :
      Respells (front ++ '/' :: back) (front ++ '/' :: '.' :: '/' :: back)
  /-- A `.` is put between two slashes. -/
  | between (front back : List Char) :
      Respells (front ++ '/' :: '/' :: back) (front ++ '/' :: '.' :: '/' :: back)
  /-- A `.` is put behind a slash at the end. -/
  | last (front : List Char) : Respells (front ++ ['/']) (front ++ ['/', '.'])

/-- What stands behind a slash can be replaced by what stands for the same steps. -/
theorem components_append_congr (front : List Char) {back back' : List Char}
    (h : steps back = steps back') :
    components (front ++ '/' :: back) = components (front ++ '/' :: back') := by
  show anchor _ ++ steps _ = anchor _ ++ steps _
  rw [anchor_append front back back', steps_append, steps_append, h]

/-- The components of a path do not change with its spelling. -/
theorem components_eq_of_respells {path path' : List Char} (h : Respells path path') :
    components path = components path' := by
  cases h with
  | double front back => exact components_append_congr front (steps_append [] back).symm
  | trailing hpath =>
    show anchor path ++ steps path = anchor (path ++ ['/']) ++ steps (path ++ ['/'])
    rw [anchor_concat hpath, steps_append path []]
    exact congrArg (anchor path ++ ·) (List.append_nil _).symm
  | here front back => exact components_append_congr front (steps_append ['.'] back).symm
  | between front back =>
    have hback : steps ('/' :: back) = steps ('.' :: '/' :: back) :=
      (steps_append [] back).trans (steps_append ['.'] back).symm
    exact components_append_congr front hback
  | last front => exact components_append_congr front rfl

/-- Nor with any number of changes of its spelling. -/
theorem components_eq_of_reflTransGen {path path' : List Char}
    (h : Relation.ReflTransGen Respells path path') : components path = components path' := by
  induction h with
  | refl => rfl
  | tail _ hstep ih => exact ih.trans (components_eq_of_respells hstep)

-- A name is not a part of a longer one, and the empty path lies above all others.
example : [("a", "a//b/."), ("a", "ab"), ("", "/a"), (".", "a")].map (fun p => includes p.1 p.2) =
    [true, false, true, false] := by decide

end Directory

/-- The components of the directory that a script lies in. -/
def Script.components (s : Script) : List Directory.Component :=
  Directory.components s.directory.toList

namespace Tree

variable {t t' : Tree} {a b c : ContextId} {s s' : Script}

/-! ### Other spellings -/

/-- The second tree is the first one with other spellings of the directories that its scripts lie
in. -/
structure Respelled (t t' : Tree) : Prop where
  /-- There are the same contexts. -/
  contexts : t'.contexts = t.contexts
  /-- There are as many scripts, and each lies in the same directory up to spelling. -/
  scripts : List.Forall₂ (fun s s' : Script =>
    Relation.ReflTransGen Directory.Respells s.directory.toList s'.directory.toList)
    t.scripts t'.scripts

/-- What a context runs lies in a directory with the same components. -/
theorem Respelled.scriptOf_eq (h : t.Respelled t') (c : ContextId) :
    (t'.scriptOf c).map Script.components = (t.scriptOf c).map Script.components := by
  have hscripts : t.scripts.map Script.components = t'.scripts.map Script.components := by
    rw [← List.forall₂_eq_eq_eq, List.forall₂_map_left_iff, List.forall₂_map_right_iff]
    exact h.scripts.imp fun _ _ => Directory.components_eq_of_reflTransGen
  have hscript (i : ScriptId) :
      (t'.script? i).map Script.components = (t.script? i).map Script.components := by
    rw [script?, script?, ← List.getElem?_map, ← List.getElem?_map, hscripts]
  rw [scriptOf, scriptOf, context?, context?, h.contexts, Option.map_bind, Option.map_bind]
  exact congrArg _ (funext hscript)

/-- Access by directory goes by the components of the two directories. -/
theorem sharesDirectory_eq (t : Tree) (a b : ContextId) :
    t.sharesDirectory a b =
      match (t.scriptOf a).map Script.components, (t.scriptOf b).map Script.components with
      | some inner, some outer => a == .global || outer.isPrefixOf inner
      | _, _ => false := by
  rw [sharesDirectory]
  cases t.scriptOf a with
  | none => rfl
  | some inner => cases t.scriptOf b <;> rfl

/-- So it does not go by their spelling. -/
theorem Respelled.canAccess_eq (h : t.Respelled t') (accessor owner : Option ContextId) :
    t'.canAccess accessor owner .directory = t.canAccess accessor owner .directory := by
  cases owner with
  | none => rfl
  | some b =>
    cases accessor with
    | none => rfl
    | some a =>
      show t'.sharesDirectory a b = t.sharesDirectory a b
      rw [sharesDirectory_eq, sharesDirectory_eq, h.scriptOf_eq, h.scriptOf_eq]

/-! ### The order of directories -/

/-- Among contexts that run scripts, access by directory is the order of directories by their
components, however they are spelled. -/
structure OrdersDirectories (t : Tree) : Prop where
  /-- A context sees what another one shares if the other's directory, component by component, is
  where its own begins. -/
  decided : ∀ a b s s', t.scriptOf a = some s → t.scriptOf b = some s' →
    (t.canAccess (some a) (some b) .directory = true ↔ s'.components <+: s.components)
  /-- It sees what it shares itself. -/
  refl : ∀ a s, t.scriptOf a = some s → t.canAccess (some a) (some a) .directory = true
  /-- It sees what is shared with those whose shared data it sees. -/
  trans : ∀ a b c, t.canAccess (some a) (some b) .directory = true →
    t.canAccess (some b) (some c) .directory = true →
    t.canAccess (some a) (some c) .directory = true
  /-- Two see what the other one shares if their directories have the same components. -/
  mutual_iff : ∀ a b s s', t.scriptOf a = some s → t.scriptOf b = some s' →
    (t.canAccess (some a) (some b) .directory = true ∧
      t.canAccess (some b) (some a) .directory = true ↔ s.components = s'.components)
  /-- Nobody sees more or less if directories are spelled differently. -/
  spelling : ∀ t', t.Respelled t' → ∀ accessor owner,
    t'.canAccess accessor owner .directory = t.canAccess accessor owner .directory

theorem Coherent.ordersDirectories (h : t.Coherent) : t.OrdersDirectories := by
  have hshares (a b : ContextId) : t.canAccess (some a) (some b) .directory = true ↔
      ∃ s s', t.scriptOf a = some s ∧ t.scriptOf b = some s' ∧ s'.components <+: s.components :=
    sharesDirectory_iff h.scriptOf_global
  have hdecided (a b : ContextId) (s s' : Script) (hs : t.scriptOf a = some s)
      (hs' : t.scriptOf b = some s') : t.canAccess (some a) (some b) .directory = true ↔
        s'.components <+: s.components := by
    rw [hshares]
    constructor
    · rintro ⟨r, r', hr, hr', hprefix⟩
      cases hs.symm.trans hr
      cases hs'.symm.trans hr'
      exact hprefix
    · intro hprefix
      exact ⟨s, s', hs, hs', hprefix⟩
  exact {
    decided := hdecided
    refl := fun a s hs => (hdecided a a s s hs hs).2 List.prefix_rfl
    trans := fun a b c hab hbc => by
      obtain ⟨s, s', hs, hs', hprefix⟩ := (hshares a b).1 hab
      obtain ⟨r, s'', hr, hs'', hprefix'⟩ := (hshares b c).1 hbc
      cases hs'.symm.trans hr
      exact (hshares a c).2 ⟨s, s'', hs, hs'', hprefix'.trans hprefix⟩
    mutual_iff := fun a b s s' hs hs' => by
      rw [hdecided a b s s' hs hs', hdecided b a s' s hs' hs, and_comm]
      exact antisymm_iff
    spelling := fun _ ht' => ht'.canAccess_eq }

/-- Whatever tree a program has built, access by directory orders its contexts as the directories
of their scripts are ordered. -/
theorem canAccess_directory_order {w : Audit.World} (hw : w.Reachable) :
    w.tree.OrdersDirectories :=
  (coherent_of_reachable hw).ordersDirectories

/-- The library of which three lies further in than two, with no slash and no `.` to spare. -/
def tidied : Audit.World :=
  Audit.World.after {}
    [.addGroup "engine" .global, .addScript "lib" "scripts/lib" [] (some ⟨1⟩),
      .addScript "util" "scripts/lib/util" [] none, .createScriptContext .global ⟨0⟩,
      .createScriptContext ⟨2⟩ ⟨1⟩, .createContext ⟨3⟩, .reparent ⟨2⟩ (some ⟨4⟩)]

/-- Its directories are those of the library, where a slash is doubled, a `.` is put behind one, and
a slash at the end. -/
theorem tidied_respelled : tidied.tree.Respelled library.tree where
  contexts := rfl
  scripts := by
    have hdouble := Directory.Respells.double "scripts".toList "lib/util".toList
    have hhere := Directory.Respells.here "scripts//lib".toList "util".toList
    have htrailing : Directory.Respells "scripts//lib/./util".toList
        "scripts//lib/./util/".toList := .trailing (by decide)
    exact .cons .refl (.cons (.tail (.tail (.single hdouble) hhere) htrailing) .nil)

theorem canAccess_directory_order_tidied :
    tidied.tree.OrdersDirectories ∧ ∀ accessor owner,
      library.tree.canAccess accessor owner .directory =
        tidied.tree.canAccess accessor owner .directory := by
  have horder : tidied.tree.OrdersDirectories := canAccess_directory_order ⟨_, rfl⟩
  exact ⟨horder, horder.spelling library.tree tidied_respelled⟩

end Tree

end Offside.Scope
