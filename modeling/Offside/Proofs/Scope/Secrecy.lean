import Offside.Proofs.Scope.Frame

/-!
# `Offside.Proofs.Scope.Secrecy`: what an accessor can find out

`getVariableFrom` finds what the plain look-up finds and then asks whether the accessor may see it.
The slot it asks about is that of the owner, which a second look-up from the owner finds again
(`ownerOf_self`), also on a chain that goes round.

So its answer depends on the shape of a tree (`SameShape`: the contexts, the scripts, the groups,
and which names are bound under which protections) and on the one value it answers, which the
accessor may see. Two trees that differ only in values that an accessor may not see (`Conceals`)
look the same to it. `getVariableFrom_guarded` is the result for all trees.
-/

set_option autoImplicit false

namespace Offside.Scope

namespace Tree

/-! ### Trees of the same shape -/

/-- Two trees are the same but for the values that names are bound to. -/
structure SameShape (t t' : Tree) : Prop where
  /-- There are the same contexts, and they are the same but for their bindings. -/
  frame : ∀ c, (t'.context? c).map (fun x => { x with bindings := {} }) =
    (t.context? c).map (fun x => { x with bindings := {} })
  /-- There are the same scripts. -/
  scripts : t'.scripts = t.scripts
  /-- There are the same groups. -/
  groups : t'.groups = t.groups
  /-- The same names are bound under the same protections. -/
  protections : ∀ c name, (t'.localSlot? c name).map (·.protection) =
    (t.localSlot? c name).map (·.protection)

namespace SameShape

variable {t t' : Tree}

theorem sameFrame (h : t.SameShape t') : t.SameFrame t' := ⟨h.frame, h.scripts, h.groups⟩

theorem binds_eq (h : t.SameShape t') (id : ContextId) (name : String) :
    t'.binds id name = t.binds id name := by
  have hbound := congrArg Option.isSome (h.protections id name)
  rw [Option.isSome_map, Option.isSome_map] at hbound
  exact hbound

theorem ownerOf_eq (h : t.SameShape t') (id : ContextId) (name : String) (n : Nat) :
    t'.ownerOf id name n = t.ownerOf id name n :=
  h.sameFrame.ownerOf_eq (h.binds_eq · name) id n

end SameShape

/-- Two trees are the same but for values that an accessor may not see. -/
structure Conceals (accessor : Option ContextId) (t t' : Tree) : Prop extends SameShape t t' where
  /-- A value that the accessor may see is the same. -/
  values : ∀ c name found found', t.localSlot? c name = some found →
    t'.localSlot? c name = some found' →
    t.canAccess accessor (some c) found.protection = true → found'.value = found.value

/-! ### The owner's slot -/

section

variable {t t' : Tree} {id owner : ContextId} {name : String} {n : Nat}

/-- A context that binds a name is its own owner: a second look-up from there ends where the first
one did. -/
theorem ownerOf_self {found : Slot} (h : t.localSlot? owner name = some found) :
    t.ownerOf owner name 0 = .ok owner := by
  have hhas : t.Has owner := has_of_localSlot? h
  have hbinds : t.binds owner name = true := by rw [binds, h, Option.isSome_some]
  obtain ⟨outer, houter⟩ := ancestors_eq_cons hhas
  unfold ownerOf
  rw [bind_of_ok (nthParent_eq_ok hhas rfl), houter,
    List.find?_cons_of_pos (p := fun c => t.binds c name) hbinds]
  rfl

/-- What a name is bound to in a tree of the same shape has the same protection. -/
theorem SameShape.exists_localSlot? (h : t.SameShape t') {found : Slot}
    (hfound : t.localSlot? owner name = some found) :
    ∃ found', t'.localSlot? owner name = some found' ∧ found'.protection = found.protection := by
  have hprotection := h.protections owner name
  rw [hfound] at hprotection
  exact Option.map_eq_some_iff.1 hprotection

/-- A look-up for an accessor that may not see the difference between two trees ends alike. -/
theorem Conceals.getVariableFrom_eq {accessor : Option ContextId} (h : t.Conceals accessor t')
    (id : ContextId) (name : String) (n : Nat) :
    t'.getVariableFrom accessor id name n = t.getVariableFrom accessor id name n := by
  -- Where the look-up ends does not depend on any value, so both end at the same owner.
  have hsame := h.ownerOf_eq id name n
  obtain ⟨owner, found, hres⟩ | ⟨e, hfails⟩ := resolves_or_fails t id name n
  · obtain ⟨found', hfound', hprotection⟩ := h.exists_localSlot? hres.bound
    have hres' := resolves_of_ownerOf (hsame.trans hres.ownerOf) hfound'
    rw [hres'.getVariableFrom, hres.getVariableFrom, h.sameFrame.canAccess_eq, hprotection]
    split
    · rename_i haccess
      rw [h.values owner name found found' hres.bound hfound' haccess]
    · rfl
  · have hfails' := fails_of_ownerOf (hsame.trans hfails.ownerOf)
    rw [hfails'.getVariableFrom, hfails.getVariableFrom]

/-- Another value for a slot changes nothing but values. -/
theorem Rebound.sameShape {found : Slot} {value : Value}
    (h : t.Rebound t' owner name (some { found with value }))
    (hfound : t.localSlot? owner name = some found) : t.SameShape t' where
  frame := h.frame
  scripts := h.scripts
  groups := h.groups
  protections c x := by
    by_cases hx : c = owner ∧ x = name
    · rw [hx.1, hx.2, h.here, hfound]
      rfl
    · rw [h.elsewhere c x (not_and_or.1 hx)]

/-- Another value for a slot makes no difference to an accessor that may not see it. -/
theorem Rebound.conceals {accessor : Option ContextId} {found : Slot} {value : Value}
    (h : t.Rebound t' owner name (some { found with value }))
    (hfound : t.localSlot? owner name = some found)
    (hhidden : t.canAccess accessor (some owner) found.protection = false) :
    t.Conceals accessor t' where
  toSameShape := h.sameShape hfound
  values c x s s' hs hs' haccess := by
    by_cases hx : c = owner ∧ x = name
    · obtain ⟨rfl, rfl⟩ := hx
      cases hfound.symm.trans hs
      rw [hhidden] at haccess
      cases haccess
    · rw [h.elsewhere c x (not_and_or.1 hx), hs] at hs'
      cases hs'
      rfl

/-- Setting a variable makes no difference to an accessor that may not see it, whatever it looks
up. -/
theorem getVariableFrom_setVariable {accessor : Option ContextId} {found : Slot} {value : Value}
    (howner : t.ownerOf id name n = .ok owner) (hfound : t.localSlot? owner name = some found)
    (hhidden : t.canAccess accessor (some owner) found.protection = false)
    (h : t.setVariable id name value n = .ok t') (c : ContextId) (x : String) (k : Nat) :
    t'.getVariableFrom accessor c x k = t.getVariableFrom accessor c x k := by
  obtain ⟨t'', hset, hrebound⟩ := (resolves_of_ownerOf howner hfound).setVariable value
  cases h.symm.trans hset
  exact (hrebound.conceals hfound hhidden).getVariableFrom_eq c x k

end

/-! ### The result -/

/-- A look-up for an accessor is the plain look-up behind a check. -/
structure Guarded (t : Tree) (accessor : Option ContextId) (id : ContextId) (name : String)
    (n : Nat) : Prop where
  /-- It fails as the plain look-up does. -/
  fails : ∀ e, t.ownerOf id name n = .error e → t.getVariableFrom accessor id name n = .error e
  /-- The owner's slot, which a look-up from the owner finds as well, is what decides, whatever is
  bound further out: the accessor gets its value or is told why not. -/
  finds : ∀ owner, t.ownerOf id name n = .ok owner →
    ∃ found, t.localSlot? owner name = some found ∧ t.slot owner name 0 = .ok found ∧
      t.getVariable id name n = .ok found.value ∧
      t.getVariableFrom accessor id name n =
        if t.canAccess accessor (some owner) found.protection then .ok found.value
        else .error (.accessDenied owner name found.protection)
  /-- It tells nothing about values that the accessor may not see. -/
  conceals : ∀ t', t.Conceals accessor t' →
    t'.getVariableFrom accessor id name n = t.getVariableFrom accessor id name n

/-- Whatever the tree and whoever asks, a look-up finds what the plain look-up finds if the accessor
may see it, and tells nothing more. -/
theorem getVariableFrom_guarded (t : Tree) (accessor : Option ContextId) (id : ContextId)
    (name : String) (n : Nat) : t.Guarded accessor id name n where
  fails _ h := (fails_of_ownerOf h).getVariableFrom accessor
  finds owner h := by
    obtain ⟨found, hfound⟩ := localSlot?_of_ownerOf h
    have hresolves := resolves_of_ownerOf h hfound
    have hagain := resolves_of_ownerOf (ownerOf_self hfound) hfound
    exact ⟨found, hfound, hagain.slot, hresolves.getVariable, hresolves.getVariableFrom accessor⟩
  conceals _ h := h.getVariableFrom_eq id name n

-- Five may see what one binds, but three comes first and keeps its own to itself.
example :
    (lasso.after [.addVariable ⟨3⟩ "far" .owner (.integer 8)]).tree.getVariableFrom (some ⟨5⟩)
        ⟨5⟩ "far" 0 = .error (.accessDenied ⟨3⟩ "far" .owner) ∧
      lasso.tree.getVariableFrom (some ⟨5⟩) ⟨5⟩ "far" 0 = .ok (.integer 7) := ⟨rfl, rfl⟩

end Tree

end Offside.Scope
