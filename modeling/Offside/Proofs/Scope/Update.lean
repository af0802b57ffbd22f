import Offside.Proofs.Scope.Secrecy

/-!
# `Offside.Proofs.Scope.Update`: who sees that a binding has changed

Setting and removing a variable change one binding of one context, the owner. Any look-up from
anywhere may come to that context or pass it by, and this file says what each of them finds
afterwards:

* `Revalued` is what setting a variable does. No look-up ends at another context, and those that
  end at the owner under that name find the new value.
* `Removed` is what removing one does. The look-ups that ended at the owner under that name go on
  to the next context that binds it (`NextOwner`), and fail where they started if there is none.
* All other look-ups find what they found (`SameLookup`).

Outwards of the owner all look-ups go the same way, whether or not that way ever ends, so what they
come to next does not depend on where they started. On a chain that goes round they may come to the
owner itself again, which no longer binds the name. `setVariable_removeVariable_exact` is the result
for all trees that a program can build.
-/

set_option autoImplicit false

namespace Offside.Scope

namespace Tree

variable {t t' : Tree} {id start owner : ContextId} {name : String} {n : Nat}

/-! ### Look-ups that find the same -/

/-- A look-up ends alike in two trees, whoever asks. -/
structure SameLookup (t t' : Tree) (id : ContextId) (name : String) (n : Nat) : Prop where
  /-- It comes to the same owner or fails with the same error. -/
  ownerOf : t'.ownerOf id name n = t.ownerOf id name n
  /-- It finds the same slot. -/
  slot : t'.slot id name n = t.slot id name n
  /-- It finds the same value. -/
  getVariable : t'.getVariable id name n = t.getVariable id name n
  /-- It is granted or refused alike. -/
  getVariableFrom : ∀ accessor,
    t'.getVariableFrom accessor id name n = t.getVariableFrom accessor id name n

/-- A look-up ends alike if it comes to the same owner, and that binds the name to the same. -/
theorem SameFrame.sameLookup (h : t.SameFrame t')
    (hsame : t'.ownerOf id name n = t.ownerOf id name n)
    (hslot : ∀ c, t.ownerOf id name n = .ok c → t'.localSlot? c name = t.localSlot? c name) :
    t.SameLookup t' id name n := by
  obtain ⟨c, found, hres⟩ | ⟨e, hfails⟩ := resolves_or_fails t id name n
  · have hfound' := (hslot c hres.ownerOf).trans hres.bound
    have hres' := resolves_of_ownerOf (hsame.trans hres.ownerOf) hfound'
    exact {
      ownerOf := hsame
      slot := hres'.slot.trans hres.slot.symm
      getVariable := hres'.getVariable.trans hres.getVariable.symm
      getVariableFrom := fun a => by
        rw [hres'.getVariableFrom, hres.getVariableFrom, h.canAccess_eq] }
  · have hfails' := fails_of_ownerOf (hsame.trans hfails.ownerOf)
    exact {
      ownerOf := hsame
      slot := hfails'.slot.trans hfails.slot.symm
      getVariable := hfails'.getVariable.trans hfails.getVariable.symm
      getVariableFrom := fun a =>
        (hfails'.getVariableFrom a).trans (hfails.getVariableFrom a).symm }

/-- Where one binding has changed, a look-up that comes to the same owner ends alike, if it does not
come to that binding. -/
theorem Rebound.sameLookup {found : Option Slot} (h : t.Rebound t' owner name found) {x : String}
    (hsame : t'.ownerOf id x n = t.ownerOf id x n)
    (hother : ¬ (x = name ∧ t.ownerOf id x n = .ok owner)) : t.SameLookup t' id x n := by
  refine h.sameFrame.sameLookup hsame fun c hc => h.elsewhere c x ?_
  by_cases hx : x = name
  · left
    rintro rfl
    exact hother ⟨hx, hc⟩
  · exact .inr hx

/-! ### Another value -/

/-- What becomes of look-ups when `owner` binds a name to another value. -/
structure Revalued (t t' : Tree) (owner : ContextId) (name : String) (found : Slot)
    (value : Value) : Prop where
  /-- This is what the owner bound the name to. -/
  bound : t.localSlot? owner name = some found
  /-- The value is all that is changed: every other binding, every parent, script and group is what
  it was. -/
  rebound : t.Rebound t' owner name (some { found with value })
  /-- No look-up ends at another context. -/
  owners : ∀ c x k, t'.ownerOf c x k = t.ownerOf c x k
  /-- No protection has changed. -/
  protections : ∀ c x k, (t'.slot c x k).map (·.protection) = (t.slot c x k).map (·.protection)
  /-- A look-up of the name that ends at the owner finds the new value. -/
  here : ∀ c k, t.ownerOf c name k = .ok owner → t'.getVariable c name k = .ok value
  /-- All other look-ups find what they found. -/
  elsewhere : ∀ c x k, ¬ (x = name ∧ t.ownerOf c x k = .ok owner) → t.SameLookup t' c x k

theorem Rebound.revalued {found : Slot} {value : Value}
    (h : t.Rebound t' owner name (some { found with value }))
    (hfound : t.localSlot? owner name = some found) : t.Revalued t' owner name found value := by
  have howners : ∀ c x k, t'.ownerOf c x k = t.ownerOf c x k :=
    fun c x k => (h.sameShape hfound).ownerOf_eq c x k
  have helsewhere : ∀ c x k, ¬ (x = name ∧ t.ownerOf c x k = .ok owner) → t.SameLookup t' c x k :=
    fun c x k hother => h.sameLookup (howners c x k) hother
  refine ⟨hfound, h, howners, fun c x k => ?_, fun c k hc => ?_, helsewhere⟩
  · by_cases hc : x = name ∧ t.ownerOf c x k = .ok owner
    · obtain ⟨rfl, hc⟩ := hc
      rw [(resolves_of_ownerOf ((howners c x k).trans hc) h.here).slot,
        (resolves_of_ownerOf hc hfound).slot]
      rfl
    · rw [(helsewhere c x k hc).slot]
  · exact (resolves_of_ownerOf ((howners c name k).trans hc) h.here).getVariable

/-! ### A binding less -/

/-- The first context outwards of an owner, other than the owner itself, that binds the name. -/
def NextOwner (t : Tree) (owner : ContextId) (name : String) (next : ContextId) : Prop :=
  ∃ k, t.outward owner k = some next ∧ next ≠ owner ∧ t.binds next name = true ∧
    ∀ j < k, ∀ c, t.outward owner j = some c → c ≠ owner → t.binds c name = false

/-- If there is any such context, there is a first one. -/
theorem exists_nextOwner {k : Nat} {c : ContextId} (hk : t.outward owner k = some c)
    (hne : c ≠ owner) (hbinds : t.binds c name = true) : ∃ next, t.NextOwner owner name next := by
  induction k using Nat.strong_induction_on generalizing c with
  | _ k ih =>
    by_cases hfirst : ∃ j < k, ∃ d, t.outward owner j = some d ∧ d ≠ owner ∧ t.binds d name = true
    · obtain ⟨j, hj, d, hd, hdne, hdbinds⟩ := hfirst
      exact ih j hj hd hdne hdbinds
    · refine ⟨c, k, hk, hne, hbinds, fun j hj d hd hdne => ?_⟩
      by_contra hdbinds
      exact hfirst ⟨j, hj, d, hd, hdne, Bool.eq_true_of_not_eq_false hdbinds⟩

/-- A search that did not find `a` finds the same if `a` is no longer to be found. -/
theorem find?_eq_of_ne {α : Type} {p q : α → Bool} {l : List α} {a : α}
    (hsame : ∀ b, b ≠ a → q b = p b) (hgone : q a = false) (h : l.find? p ≠ some a) :
    l.find? q = l.find? p := by
  induction l with
  | nil => rfl
  | cons b l ih =>
    by_cases hb : b = a
    · subst hb
      have hp : p b = false := by
        by_contra hp
        exact h (List.find?_cons_of_pos (Bool.eq_true_of_not_eq_false hp))
      have hnot : ¬ p b = true := Bool.eq_false_iff.1 hp
      rw [List.find?_cons_of_neg hnot] at h ⊢
      rw [List.find?_cons_of_neg (Bool.eq_false_iff.1 hgone), ih h]
    · rw [List.find?_cons] at h ⊢
      rw [List.find?_cons, hsame b hb]
      split
      · rfl
      · rename_i hp
        rw [hp] at h
        exact ih h

/-- What becomes of look-ups when `owner` no longer binds a name. -/
structure Removed (t t' : Tree) (owner : ContextId) (name : String) : Prop where
  /-- The binding is all that is gone: every other binding, every parent, script and group is what
  it was. -/
  rebound : t.Rebound t' owner name none
  /-- A look-up of the name that ended at the owner goes on to the next context that binds it. -/
  next : ∀ c k, t.ownerOf c name k = .ok owner → ∀ next, t.NextOwner owner name next →
    ∃ found, t.localSlot? next name = some found ∧ t'.Resolves c name k next found
  /-- It fails where it started if there is none. -/
  last : ∀ c k, t.ownerOf c name k = .ok owner → (∀ next, ¬ t.NextOwner owner name next) →
    ∃ start, t.nthParent c k = .ok start ∧ t'.Fails c name k (.variableNotFound start name)
  /-- All other look-ups find what they found. -/
  elsewhere : ∀ c x k, ¬ (x = name ∧ t.ownerOf c x k = .ok owner) → t.SameLookup t' c x k

section

variable {found : Option Slot}

theorem Rebound.binds_eq (h : t.Rebound t' owner name found) {c : ContextId} {x : String}
    (hne : c ≠ owner ∨ x ≠ name) : t'.binds c x = t.binds c x := by
  rw [binds, binds, h.elsewhere c x hne]

theorem Rebound.not_binds (h : t.Rebound t' owner name none) : t'.binds owner name = false := by
  rw [binds, h.here]
  rfl

/-- A look-up that did not end at the owner under that name ends where it did. -/
theorem Rebound.ownerOf_eq (h : t.Rebound t' owner name none) {x : String}
    (hother : ¬ (x = name ∧ t.ownerOf id x n = .ok owner)) :
    t'.ownerOf id x n = t.ownerOf id x n := by
  by_cases hx : x = name
  · subst hx
    have howner : t.ownerOf id x n ≠ .ok owner := fun heq => hother ⟨rfl, heq⟩
    have hnth := h.sameFrame.nthParent_eq id n
    cases hstart : t.nthParent id n with
    | error e =>
      show t'.ownerOf id x n = t.ownerOf id x n
      unfold ownerOf
      rw [bind_of_error (hnth.trans hstart), bind_of_error hstart]
    | ok start =>
      have hfind : (t.ancestors start).find? (fun c => t.binds c x) ≠ some owner :=
        fun heq => howner (ownerOf_eq_ok_iff.2 ⟨start, hstart, heq⟩)
      unfold ownerOf
      rw [bind_of_ok (hnth.trans hstart), bind_of_ok hstart, h.sameFrame.ancestors_eq,
        find?_eq_of_ne (fun c hc => h.binds_eq (.inl hc)) h.not_binds hfind]
  · exact h.sameFrame.ownerOf_eq (fun c => h.binds_eq (.inr hx)) id n

/-- Where the owner was the first to bind the name, whatever binds it now lies outwards of the
owner. -/
theorem Rebound.behind_owner (h : t.Rebound t' owner name none) {k : Nat}
    (howner : t.outward start k = some owner)
    (hfirst : ∀ j < k, ∀ c, t.outward start j = some c → t.binds c name = false)
    {m : Nat} {c : ContextId} (hm : t'.outward start m = some c) (hc : t'.binds c name = true) :
    ∃ j, m = k + j ∧ t.outward owner j = some c ∧ c ≠ owner ∧ t.binds c name = true := by
  have hne : c ≠ owner := by
    rintro rfl
    rw [h.not_binds] at hc
    cases hc
  rw [h.binds_eq (.inl hne)] at hc
  rw [h.sameFrame.outward_eq] at hm
  rcases Nat.lt_or_ge m k with hlt | hge
  · rw [hfirst m hlt c hm] at hc
    cases hc
  · obtain ⟨j, rfl⟩ := Nat.exists_eq_add_of_le hge
    rw [outward_add, howner] at hm
    exact ⟨j, rfl, hm, hne, hc⟩

theorem Rebound.removed (ht : t.WellFormed) (ht' : t'.WellFormed)
    (h : t.Rebound t' owner name none) : t.Removed t' owner name where
  rebound := h
  next c k hc next hnext := by
    obtain ⟨start, i, hstart, howner, -, hfirst⟩ := (ownerOf_eq_ok_iff_outward ht).1 hc
    obtain ⟨m, hm, hne, hbinds, hbetween⟩ := hnext
    obtain ⟨found, hfound⟩ := Option.isSome_iff_exists.1 hbinds
    refine ⟨found, hfound, resolves_of_ownerOf ?_ ((h.elsewhere next name (.inl hne)).trans hfound)⟩
    refine (ownerOf_eq_ok_iff_outward ht').2 ⟨start, i + m, ?_, ?_, ?_, fun j hj d hd => ?_⟩
    · rw [h.sameFrame.nthParent_eq, hstart]
    · rw [h.sameFrame.outward_eq, outward_add, howner]
      exact hm
    · rw [h.binds_eq (.inl hne), hbinds]
    -- Nothing on the way to the next owner binds the name any more.
    · by_contra hd'
      obtain ⟨l, rfl, hl, hdne, hdbinds⟩ :=
        h.behind_owner howner hfirst hd (Bool.eq_true_of_not_eq_false hd')
      rw [hbetween l (by omega) d hl hdne] at hdbinds
      cases hdbinds
  last c k hc hnone := by
    obtain ⟨start, i, hstart, howner, -, hfirst⟩ := (ownerOf_eq_ok_iff_outward ht).1 hc
    have hstart' : t'.nthParent c k = .ok start := (h.sameFrame.nthParent_eq c k).trans hstart
    obtain ⟨hhas, hout⟩ := nthParent_eq_ok_iff.1 hstart'
    refine ⟨start, hstart, fails_of_ownerOf (ownerOf_eq_error ht' hhas hout fun m d hd => ?_)⟩
    by_contra hd'
    obtain ⟨l, -, hl, hdne, hdbinds⟩ :=
      h.behind_owner howner hfirst hd (Bool.eq_true_of_not_eq_false hd')
    obtain ⟨next, hnext⟩ := exists_nextOwner hl hdne hdbinds
    exact hnone next hnext
  elsewhere _ _ _ hother := h.sameLookup (h.ownerOf_eq hother) hother

end

/-! ### The result -/

/-- Whatever tree a program has built, setting a variable and removing one act on one binding, as
everyone sees it: on that of the owner. -/
theorem setVariable_removeVariable_exact {w : Audit.World} (hw : w.Reachable) (id : ContextId)
    (name : String) (n : Nat) :
    (∀ value t', w.tree.setVariable id name value n = .ok t' →
      ∃ owner found, w.tree.ownerOf id name n = .ok owner ∧
        w.tree.Revalued t' owner name found value) ∧
    (∀ t' found, w.tree.removeVariable id name n = .ok (t', found) →
      ∃ owner, w.tree.ownerOf id name n = .ok owner ∧
        w.tree.localSlot? owner name = some found ∧ w.tree.Removed t' owner name) := by
  have ht : w.tree.WellFormed := hw.wellFormed.tree
  obtain ⟨owner, slot, hres⟩ | ⟨e, hfails⟩ := resolves_or_fails w.tree id name n
  · constructor
    · intro value t' h
      obtain ⟨t'', hset, hrebound⟩ := hres.setVariable value
      cases h.symm.trans hset
      exact ⟨owner, slot, hres.ownerOf, hrebound.revalued hres.bound⟩
    · intro t' found h
      have ht' : t'.WellFormed :=
        ht.change (Mutation.removeVariable_change (Mutation.result_eq_ok_iff.1 h))
      obtain ⟨t'', hremove, hrebound⟩ := hres.removeVariable
      cases h.symm.trans hremove
      exact ⟨owner, hres.ownerOf, hres.bound, hrebound.removed ht ht'⟩
  -- A look-up that fails changes nothing.
  · constructor
    · intro value t' h
      rw [hfails.setVariable] at h
      cases h
    · intro t' found h
      rw [hfails.removeVariable] at h
      cases h

/-- The chain of five goes over three, which binds a name that one binds as well, further out in the
cycle of one and two. -/
def shaded : Audit.World := lasso.after [.addVariable ⟨3⟩ "far" .owner (.integer 8)]

/-- From five, what three binds is set, and from four it is removed. Look-ups that ended at three go
on to one. -/
theorem setVariable_removeVariable_exact_shaded :
    (∃ t' found, shaded.tree.setVariable ⟨5⟩ "far" (.integer 9) 1 = .ok t' ∧
      shaded.tree.Revalued t' ⟨3⟩ "far" found (.integer 9)) ∧
    ∃ t' found, shaded.tree.removeVariable ⟨4⟩ "far" 0 = .ok (t', found) ∧
      shaded.tree.Removed t' ⟨3⟩ "far" ∧ shaded.tree.NextOwner ⟨3⟩ "far" ⟨1⟩ := by
  have hreachable : shaded.Reachable := lasso_reachable.after _
  constructor
  · obtain ⟨owner, found, howner, hset⟩ :=
      (setVariable_removeVariable_exact hreachable ⟨5⟩ "far" 1).1 (.integer 9) _ rfl
    have hthree : shaded.tree.ownerOf ⟨5⟩ "far" 1 = .ok ⟨3⟩ := rfl
    cases Except.ok.inj (hthree.symm.trans howner)
    exact ⟨_, found, rfl, hset⟩
  · obtain ⟨owner, howner, -, hremoved⟩ :=
      (setVariable_removeVariable_exact hreachable ⟨4⟩ "far" 0).2 _ _ rfl
    have hthree : shaded.tree.ownerOf ⟨4⟩ "far" 0 = .ok ⟨3⟩ := rfl
    cases Except.ok.inj (hthree.symm.trans howner)
    exact ⟨_, _, rfl, hremoved, 2, rfl, by decide, rfl, by decide⟩

-- Without the binding of three and then that of one, the look-up goes round and comes back to where
-- it started.
example :
    (shaded.after [.removeVariable ⟨4⟩ "far" 0]).tree.ownerOf ⟨5⟩ "far" 1 = .ok ⟨1⟩ ∧
      (shaded.after [.removeVariable ⟨4⟩ "far" 0, .removeVariable ⟨5⟩ "far" 0]).tree.ownerOf
        ⟨5⟩ "far" 1 = .error (.variableNotFound ⟨4⟩ "far") := by
  decide +kernel

end Tree

end Offside.Scope
