import Offside.Proofs.Scope.Coherence
import Offside.Proofs.Scope.Outward

/-!
# `Offside.Proofs.Scope.Access`: who may see what

`canAccess` decides by groups, directories and identity, with an exception for the global context.
In the trees that a program can build, much of that comes to less than it seems:

* The chain of an accessor begins with the accessor, so the search for its group always ends there,
  whatever the groups of the two contexts and wherever the chain leads (`staysInGroup_iff`).
* The global context never runs a script, so the exception for it never applies
  (`sharesDirectory_iff`).

`canAccess_exact` says what is left, for every accessor, and `canAccess_nested` how the four
protections are nested. They are nested but for one step: a context that runs no script may see
what it keeps to itself, and may not see what it shares with a directory, because it has none
(`canAccess_not_nested_block`).
-/

set_option autoImplicit false

namespace Offside.Scope

/-- How wide a protection is: how many of the others are narrower. -/
def Protection.width : Protection → Nat
  | owner => 0
  | directory => 1
  | group => 2
  | everyone => 3

namespace Tree

variable {t : Tree} {id accessor owner : ContextId}

/-! ### The three rules -/

/-- Every context of the tree stays in its group, because its chain begins with itself. -/
theorem staysInGroup_iff : t.staysInGroup id = true ↔ t.Has id := by
  by_cases hid : t.Has id
  · obtain ⟨outer, houter⟩ := ancestors_eq_cons hid
    simp [staysInGroup, houter, hid]
  · simp [staysInGroup, ancestors_eq_nil hid, hid]

theorem has_of_scriptOf {s : Script} (h : t.scriptOf id = some s) : t.Has id := by
  obtain ⟨i, hi, -⟩ := Option.bind_eq_some_iff.1 h
  obtain ⟨c, hc, -⟩ := Option.bind_eq_some_iff.1 hi
  exact has_iff.2 ⟨c, hc⟩

/-- Directories decide, if the global context runs no script. -/
theorem sharesDirectory_iff (hglobal : t.scriptOf .global = none) :
    t.sharesDirectory accessor owner = true ↔
      ∃ inner outer, t.scriptOf accessor = some inner ∧ t.scriptOf owner = some outer ∧
        Directory.components outer.directory.toList <+:
          Directory.components inner.directory.toList := by
  rw [sharesDirectory]
  cases hinner : t.scriptOf accessor with
  | none => simp
  | some inner =>
    have hne : accessor ≠ .global := by
      rintro rfl
      rw [hglobal] at hinner
      cases hinner
    cases houter : t.scriptOf owner with
    | none => simp
    | some outer => simp [hne, Directory.includes]

/-- The global context runs no script. -/
theorem Coherent.scriptOf_global (h : t.Coherent) : t.scriptOf .global = none := by
  obtain ⟨c, hc, -, hidle, -⟩ := h.global
  rw [scriptOf, hc, Option.bind_some, hidle]
  rfl

theorem coherent_of_reachable {w : Audit.World} (hw : w.Reachable) : w.tree.Coherent := by
  obtain ⟨ops, rfl⟩ := hw
  exact coherent_new.changes (Audit.World.wellFormed_new.changes_after ops)

/-! ### All decisions -/

/-- Which protections let an accessor see what an owner binds. -/
structure Grants (t : Tree) (accessor : Option ContextId) (owner : ContextId) : Prop where
  /-- What everyone may see is seen. -/
  everyone : t.canAccess accessor (some owner) .everyone = true
  /-- Without an accessor, or for one that does not exist, nothing else is. -/
  strangers : (∀ id ∈ accessor, ¬ t.Has id) →
    ∀ p, t.canAccess accessor (some owner) p = true → p = .everyone
  /-- A context sees what the owner keeps to itself if it is the owner. -/
  self : ∀ id ∈ accessor, t.Has id →
    (t.canAccess accessor (some owner) .owner = true ↔ id = owner)
  /-- It sees what a directory shares if both run scripts and the owner's directory, component by
  component, is where its own begins. -/
  directories : ∀ id ∈ accessor, t.Has id →
    (t.canAccess accessor (some owner) .directory = true ↔
      ∃ inner outer, t.scriptOf id = some inner ∧ t.scriptOf owner = some outer ∧
        Directory.components outer.directory.toList <+:
          Directory.components inner.directory.toList)
  /-- The global context takes no part in that, neither as the accessor nor as the owner. -/
  global : accessor = some .global ∨ owner = .global →
    t.canAccess accessor (some owner) .directory = false
  /-- It always sees what a group shares. -/
  groups : ∀ id ∈ accessor, t.Has id → t.canAccess accessor (some owner) .group = true

/-- A stranger is granted only what everyone is. -/
theorem eq_everyone_of_stranger (howner : t.Has owner) {accessor : Option ContextId}
    (hstranger : ∀ id ∈ accessor, ¬ t.Has id) {p : Protection}
    (h : t.canAccess accessor (some owner) p = true) : p = .everyone := by
  cases accessor with
  | none => simpa [canAccess] using h
  | some id =>
    have hid : ¬ t.Has id := hstranger id rfl
    cases p with
    | everyone => rfl
    | group => exact absurd (staysInGroup_iff.1 h) hid
    | directory =>
      -- A context that does not exist runs no script.
      cases hscript : t.scriptOf id with
      | none => simp [canAccess, sharesDirectory, hscript] at h
      | some s => exact absurd (has_of_scriptOf hscript) hid
    | owner =>
      have heq : id = owner := by simpa [canAccess] using h
      exact absurd (heq ▸ howner) hid

theorem Coherent.grants (h : t.Coherent) (howner : t.Has owner) (accessor : Option ContextId) :
    t.Grants accessor owner where
  everyone := by cases accessor <;> rfl
  strangers hstranger _ hp := eq_everyone_of_stranger howner hstranger hp
  self id hid _ := by
    cases hid
    simp [canAccess]
  directories id hid _ := by
    cases hid
    exact sharesDirectory_iff h.scriptOf_global
  global hglobal := by
    cases accessor with
    | none => rfl
    | some id =>
      rw [Bool.eq_false_iff]
      intro hshares
      obtain ⟨inner, outer, hinner, houter, -⟩ := (sharesDirectory_iff h.scriptOf_global).1 hshares
      rcases hglobal with hid | rfl
      · cases hid
        rw [h.scriptOf_global] at hinner
        cases hinner
      · rw [h.scriptOf_global] at houter
        cases houter
  groups id hid hhas := by
    cases hid
    exact staysInGroup_iff.2 hhas

/-- Whatever tree a program has built, these are the grants for every context and every accessor:
present or not, existing or not, and wherever its chain leads. The global context never runs a
script. -/
theorem canAccess_exact {w : Audit.World} (hw : w.Reachable) (howner : owner ∈ w.tree.contextIds)
    (accessor : Option ContextId) :
    w.tree.scriptOf .global = none ∧ w.tree.Grants accessor owner := by
  have hcoherent := coherent_of_reachable hw
  exact ⟨hcoherent.scriptOf_global, hcoherent.grants (mem_contextIds.1 howner) accessor⟩

/-- Two runs a script of a group and three, below it, one from a directory further in. Four is a
block in three, and two has come to hang below four. -/
def library : Audit.World :=
  Audit.World.after {}
    [.addGroup "engine" .global, .addScript "lib" "scripts/lib" [] (some ⟨1⟩),
      .addScript "util" "scripts//lib/./util/" [] none, .createScriptContext .global ⟨0⟩,
      .createScriptContext ⟨2⟩ ⟨1⟩, .createContext ⟨3⟩, .reparent ⟨2⟩ (some ⟨4⟩)]

theorem canAccess_exact_library :
    library.tree.scriptOf .global = none ∧ library.tree.Grants (some ⟨3⟩) ⟨2⟩ :=
  canAccess_exact ⟨_, rfl⟩ (by decide) (some ⟨3⟩)

-- Three lies further in than two, and the block in it lies nowhere.
example : library.tree.canAccess (some ⟨3⟩) (some ⟨2⟩) .directory = true ∧
    library.tree.canAccess (some ⟨2⟩) (some ⟨3⟩) .directory = false ∧
    library.tree.canAccess (some ⟨4⟩) (some ⟨3⟩) .directory = false := by decide

/-! ### Wider and narrower -/

/-- A context sees all that is its own, except what it shares with a directory if it has none. -/
theorem Coherent.canAccess_self_iff (h : t.Coherent) (howner : t.Has owner) {p : Protection} :
    t.canAccess (some owner) (some owner) p = true ↔
      (p = .directory → (t.scriptOf owner).isSome = true) := by
  cases p with
  | everyone => exact iff_of_true rfl nofun
  | group => exact iff_of_true (staysInGroup_iff.2 howner) nofun
  | owner => exact iff_of_true (by simp [canAccess]) nofun
  | directory =>
    show t.sharesDirectory owner owner = true ↔ _
    rw [sharesDirectory_iff h.scriptOf_global]
    constructor
    · rintro ⟨inner, outer, hinner, -, -⟩ -
      rw [hinner, Option.isSome_some]
    · intro hsome
      obtain ⟨s, hs⟩ := Option.isSome_iff_exists.1 (hsome rfl)
      exact ⟨s, s, hs, hs, List.prefix_rfl⟩

/-- What a context sees under one protection it sees under every wider one, but for one step. -/
theorem Coherent.canAccess_of_width_le (h : t.Coherent) (haccessor : t.Has accessor)
    (howner : t.Has owner) {p q : Protection} (hwider : p.width ≤ q.width)
    (hscript : p = .owner → q = .directory → (t.scriptOf owner).isSome = true)
    (hp : t.canAccess (some accessor) (some owner) p = true) :
    t.canAccess (some accessor) (some owner) q = true := by
  cases q with
  | everyone => rfl
  | group => exact staysInGroup_iff.2 haccessor
  | owner =>
    -- Only the narrowest is as narrow as this.
    cases p with
    | everyone => exact absurd hwider (by decide)
    | group => exact absurd hwider (by decide)
    | directory => exact absurd hwider (by decide)
    | owner => exact hp
  | directory =>
    cases p with
    | everyone => exact absurd hwider (by decide)
    | group => exact absurd hwider (by decide)
    | directory => exact hp
    | owner =>
      have heq : accessor = owner := by simpa [canAccess] using hp
      subst heq
      exact (h.canAccess_self_iff howner).2 fun _ => hscript rfl rfl

/-- Whatever tree a program has built, what a context may see under one protection it may see under
every wider one, but for one step: a context that runs no script may see what is its own under every
protection except that for a directory. -/
theorem canAccess_nested {w : Audit.World} (hw : w.Reachable)
    (haccessor : accessor ∈ w.tree.contextIds) (howner : owner ∈ w.tree.contextIds) :
    (∀ p q : Protection, p.width ≤ q.width →
      (p = .owner → q = .directory → (w.tree.scriptOf owner).isSome = true) →
      w.tree.canAccess (some accessor) (some owner) p = true →
      w.tree.canAccess (some accessor) (some owner) q = true) ∧
    ∀ p, w.tree.canAccess (some owner) (some owner) p = true ↔
      (p = .directory → (w.tree.scriptOf owner).isSome = true) := by
  have hcoherent := coherent_of_reachable hw
  have ha := mem_contextIds.1 haccessor
  have ho := mem_contextIds.1 howner
  exact ⟨fun _ _ hwider hscript hp => hcoherent.canAccess_of_width_le ha ho hwider hscript hp,
    fun _ => hcoherent.canAccess_self_iff ho⟩

theorem canAccess_nested_library :
    (∀ p q : Protection, p.width ≤ q.width →
      (p = .owner → q = .directory → (library.tree.scriptOf ⟨3⟩).isSome = true) →
      library.tree.canAccess (some ⟨3⟩) (some ⟨3⟩) p = true →
      library.tree.canAccess (some ⟨3⟩) (some ⟨3⟩) q = true) ∧
    ∀ p, library.tree.canAccess (some ⟨3⟩) (some ⟨3⟩) p = true ↔
      (p = .directory → (library.tree.scriptOf ⟨3⟩).isSome = true) :=
  canAccess_nested ⟨_, rfl⟩ (by decide) (by decide)

/-- One block below the global context. It runs no script. -/
def block : Audit.World := Audit.World.after {} [.createContext .global]

/-- Where there is such a block, the protections are not nested, and not every context may see
everything that is its own. -/
theorem canAccess_not_nested_block :
    ¬ (∀ w : Audit.World, w.Reachable → ∀ accessor ∈ w.tree.contextIds,
      ∀ owner ∈ w.tree.contextIds, ∀ p q : Protection, p.width ≤ q.width →
      w.tree.canAccess (some accessor) (some owner) p = true →
      w.tree.canAccess (some accessor) (some owner) q = true) ∧
    ¬ ∀ w : Audit.World, w.Reachable → ∀ owner ∈ w.tree.contextIds, ∀ p,
      w.tree.canAccess (some owner) (some owner) p = true := by
  have hreachable : block.Reachable := ⟨_, rfl⟩
  have hmem : ⟨1⟩ ∈ block.tree.contextIds := by decide
  have hkept : block.tree.canAccess (some ⟨1⟩) (some ⟨1⟩) .owner = true := rfl
  have hshared : ¬ block.tree.canAccess (some ⟨1⟩) (some ⟨1⟩) .directory = true := by decide
  constructor
  · intro hnested
    exact hshared (hnested block hreachable ⟨1⟩ hmem ⟨1⟩ hmem .owner .directory (by decide) hkept)
  · intro hself
    exact hshared (hself block hreachable ⟨1⟩ hmem .directory)

end Tree

end Offside.Scope
