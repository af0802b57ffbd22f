import Mathlib.Data.Nat.Find
import Offside.Proofs.Scope.Update

/-!
# `Offside.Proofs.Scope.NewBinding`: who sees a new binding

Adding a variable gives a context a binding that it did not have. Seen from the tree with the
binding, the tree without it is what removing the binding leaves (`Rebound.symm`), so what is known
about removed bindings tells which look-ups pass by. The others are those that come to the context
before they come to any other one that binds the name (`Meets`), and they end there now
(`Rebound.ownerOf_eq_ok_iff`).

`Added` collects what becomes of all look-ups, and that removing the variable at once gives the
tree back as it was. `addVariable_exact` is the result for all trees that a program can build.
-/

set_option autoImplicit false

namespace Offside.Scope

namespace Tree

variable {t t' : Tree} {id c : ContextId} {name : String} {n : Nat}

/-! ### Look-ups that come to a context -/

/-- A look-up of a name, from `n` parents further out than `c`, comes to `id` before it comes to any
other context that binds the name. -/
def Meets (t : Tree) (c : ContextId) (name : String) (n : Nat) (id : ContextId) : Prop :=
  ∃ start k, t.nthParent c n = .ok start ∧ t.outward start k = some id ∧
    ∀ j < k, ∀ d, t.outward start j = some d → d ≠ id → t.binds d name = false

/-- On a chain that goes round, a look-up comes to a context more than once. What counts is the
first time. -/
theorem Meets.first (h : t.Meets c name n id) :
    ∃ start k, t.nthParent c n = .ok start ∧ t.outward start k = some id ∧
      ∀ j < k, ∀ d, t.outward start j = some d → d ≠ id ∧ t.binds d name = false := by
  obtain ⟨start, k, hstart, hk, hbetween⟩ := h
  have hmeets : ∃ i, t.outward start i = some id := ⟨k, hk⟩
  have hle : Nat.find hmeets ≤ k := Nat.find_min' hmeets hk
  refine ⟨start, Nat.find hmeets, hstart, Nat.find_spec hmeets, fun j hj d hd => ?_⟩
  have hne : d ≠ id := by
    rintro rfl
    exact Nat.find_min hmeets hj hd
  exact ⟨hne, hbetween j (Nat.lt_of_lt_of_le hj hle) d hd hne⟩

/-! ### Two trees that differ in one binding -/

/-- The first tree is the second one but for the same binding. -/
theorem Rebound.symm {was found : Option Slot} (h : t.Rebound t' id name found)
    (hwas : t.localSlot? id name = was) : t'.Rebound t id name was where
  here := hwas
  elsewhere d x hne := (h.elsewhere d x hne).symm
  frame d := (h.frame d).symm
  scripts := h.scripts.symm
  groups := h.groups.symm

section

variable {slot : Slot}

/-- The look-ups that end at a new binding are those that come to its context. -/
theorem Rebound.ownerOf_eq_ok_iff (ht' : t'.WellFormed) (h : t.Rebound t' id name (some slot)) :
    t'.ownerOf c name n = .ok id ↔ t.Meets c name n id := by
  rw [ownerOf_eq_ok_iff_outward ht']
  simp only [h.sameFrame.nthParent_eq, h.sameFrame.outward_eq]
  constructor
  · rintro ⟨start, k, hstart, hk, -, hfirst⟩
    refine ⟨start, k, hstart, hk, fun j hj d hd hne => ?_⟩
    rw [← h.binds_eq (.inl hne)]
    exact hfirst j hj d hd
  · intro hmeets
    obtain ⟨start, k, hstart, hk, hfirst⟩ := hmeets.first
    have hbinds : t'.binds id name = true := by rw [binds, h.here, Option.isSome_some]
    refine ⟨start, k, hstart, hk, hbinds, fun j hj d hd => ?_⟩
    obtain ⟨hne, hno⟩ := hfirst j hj d hd
    rw [h.binds_eq (.inl hne), hno]

/-- All other look-ups pass by a new binding. -/
theorem Rebound.sameLookup_of_not_meets (ht' : t'.WellFormed)
    (h : t.Rebound t' id name (some slot)) (hfree : t.localSlot? id name = none) {x : String}
    (hother : ¬ (x = name ∧ t.Meets c x n id)) : t.SameLookup t' c x n := by
  have hpast : ¬ (x = name ∧ t'.ownerOf c x n = .ok id) := by
    rintro ⟨rfl, howner⟩
    exact hother ⟨rfl, (h.ownerOf_eq_ok_iff ht').1 howner⟩
  -- Without the binding they end where they do with it.
  have hsame : t.ownerOf c x n = t'.ownerOf c x n := (h.symm hfree).ownerOf_eq hpast
  exact h.sameLookup hsame.symm (hsame ▸ hpast)

end

/-! ### Adding and removing -/

/-- A context's own binding is the nearest one, so it is what is removed. -/
theorem removeVariable_self {found : Slot} (h : t.localSlot? id name = some found) :
    t.removeVariable id name 0 = .ok (t.unbind id name, found) :=
  removeVariable_eq_of_ownerOf (ownerOf_self h) h

/-- A binding that comes and goes leaves no trace, not even in the order of the names. -/
theorem unbind_bind (hfree : t.localSlot? id name = none) (slot : Slot) :
    (t.bind id name slot).unbind id name = t := by
  refine ext_context? (fun d => ?_) rfl rfl
  rw [unbind, bind, context?_modify, context?_modify]
  split
  · rename_i hd
    subst hd
    cases hx : t.context? d with
    | none => rfl
    | some x =>
      have hnone : x.bindings.find? name = none := by
        rw [localSlot?, hx] at hfree
        exact hfree
      simp only [Option.map_some, Register.erase_insert, Register.erase_eq_self hnone]
  · rfl

/-- What becomes of look-ups when `id` comes to bind a name. -/
structure Added (t t' : Tree) (id : ContextId) (name : String) (slot : Slot) : Prop where
  /-- The name was free. -/
  free : t.localSlot? id name = none
  /-- The binding is all that is new: every other binding, every parent, script and group is what it
  was. -/
  rebound : t.Rebound t' id name (some slot)
  /-- The look-ups of the name that end at the context are those that come to it before any other
  context that binds the name. -/
  owner : ∀ c n, t'.ownerOf c name n = .ok id ↔ t.Meets c name n id
  /-- They find what was added. -/
  here : ∀ c n, t.Meets c name n id → t'.Resolves c name n id slot
  /-- All others find what they found. -/
  past : ∀ c n, ¬ t.Meets c name n id → t.SameLookup t' c name n
  /-- So do all look-ups of other names. -/
  elsewhere : ∀ c x n, x ≠ name → t.SameLookup t' c x n
  /-- Removing the variable at once answers what was added and gives back the tree. -/
  undone : t'.removeVariable id name 0 = .ok (t, slot)

theorem added_bind (ht : t.WellFormed) (hid : t.Has id) (hfree : t.localSlot? id name = none)
    (slot : Slot) : t.Added (t.bind id name slot) id name slot := by
  have ht' : (t.bind id name slot).WellFormed := ht.change (.bind hid)
  have h : t.Rebound (t.bind id name slot) id name (some slot) := rebound_bind hid slot
  exact {
    free := hfree
    rebound := h
    owner := fun c n => h.ownerOf_eq_ok_iff ht'
    here := fun c n hmeets =>
      resolves_of_ownerOf ((h.ownerOf_eq_ok_iff ht').2 hmeets) h.here
    past := fun c n hno => h.sameLookup_of_not_meets ht' hfree fun hmeets => hno hmeets.2
    elsewhere := fun c x n hne => h.sameLookup_of_not_meets ht' hfree fun hx => hne hx.1
    undone := by rw [removeVariable_self h.here, unbind_bind hfree] }

/-! ### The result -/

/-- Whatever tree a program has built, adding a variable to a context that exists answers that it
did unless the context itself binds the name, and then changes nothing. Otherwise the new binding is
seen by exactly the look-ups that come to it, and removing it undoes it. -/
theorem addVariable_exact {w : Audit.World} (hw : w.Reachable) (hid : id ∈ w.tree.contextIds)
    (name : String) (protection : Protection) (value : Value) :
    ∃ t' added, w.tree.addVariable id name protection value = .ok (t', added) ∧
      (added = false ↔ w.tree.binds id name = true) ∧
      (added = false → t' = w.tree) ∧
      (added = true → w.tree.Added t' id name ⟨protection, value⟩) := by
  have ht : w.tree.WellFormed := hw.wellFormed.tree
  have hhas : w.tree.Has id := mem_contextIds.1 hid
  have hadd := addVariable_eq hhas name protection value
  cases hbinds : w.tree.binds id name with
  | true =>
    rw [hbinds, if_pos rfl] at hadd
    exact ⟨_, _, hadd, iff_of_true rfl rfl, fun _ => rfl, fun h => (by cases h)⟩
  | false =>
    rw [hbinds, if_neg Bool.false_ne_true] at hadd
    have hfree : w.tree.localSlot? id name = none := by simpa [binds] using hbinds
    exact ⟨_, _, hadd, iff_of_false (by decide) (by decide), fun h => (by cases h),
      fun _ => added_bind ht hhas hfree _⟩

/-- In the cycle of one and two, one binds a name that is now added to two as well. The look-ups
that come into the cycle by way of two end there, and those that begin at one still end at one. -/
theorem addVariable_exact_in_cycle :
    ∃ t', lasso.tree.addVariable ⟨2⟩ "far" .owner (.integer 8) = .ok (t', true) ∧
      lasso.tree.Added t' ⟨2⟩ "far" ⟨.owner, .integer 8⟩ ∧
      lasso.tree.Meets ⟨5⟩ "far" 1 ⟨2⟩ ∧ lasso.tree.ownerOf ⟨5⟩ "far" 1 = .ok ⟨1⟩ ∧
      t'.ownerOf ⟨5⟩ "far" 1 = .ok ⟨2⟩ ∧ t'.ownerOf ⟨1⟩ "far" 0 = .ok ⟨1⟩ := by
  have hid : (⟨2⟩ : ContextId) ∈ lasso.tree.contextIds := by decide
  obtain ⟨t', added, hadd, -, -, hadded⟩ :=
    addVariable_exact lasso_reachable hid "far" .owner (.integer 8)
  cases hadd
  have hnew := hadded rfl
  have hmeets : lasso.tree.Meets ⟨5⟩ "far" 1 ⟨2⟩ := (hnew.owner ⟨5⟩ 1).1 rfl
  exact ⟨_, rfl, hnew, hmeets, rfl, (hnew.here ⟨5⟩ 1 hmeets).ownerOf, rfl⟩

end Tree

end Offside.Scope
