import Offside.Proofs.Audit.Restoring
import Offside.Proofs.Scope.Outward

/-!
# `Offside.Proofs.Scope.Lookup`: what look-ups find and change

A look-up names a context, a variable and a number of parents to skip. Six operations look up,
and they agree:

* `Resolves` says that they all act on one context, the owner: it is what is found, its slot is
  what is read, and it alone is changed (`Rebound`).
* `Fails` says that they all fail with one error.

Both follow from what `ownerOf` answers (`resolves_of_ownerOf`, `fails_of_ownerOf`), so every
look-up does one or the other (`resolves_or_fails`), and `ownerOf` answers the first context
outwards that binds the variable (`ownerOf_eq_ok_iff_outward`).
`lookup_exact` is the result for all trees that a program can build, whether or not their chains
end.
-/

set_option autoImplicit false

namespace Offside.Scope

namespace Tree

variable {t : Tree} {id start owner : ContextId} {name : String} {n : Nat}

/-! ### One binding changed -/

/-- The second tree is the first one but for what one context binds one name to. -/
structure Rebound (t t' : Tree) (id : ContextId) (name : String) (found : Option Slot) :
    Prop where
  /-- The context binds the name to this, or not at all. -/
  here : t'.localSlot? id name = found
  /-- All other bindings are what they were. -/
  elsewhere : ∀ c x, c ≠ id ∨ x ≠ name → t'.localSlot? c x = t.localSlot? c x
  /-- There are the same contexts, and they are what they were but for their bindings. -/
  frame : ∀ c, (t'.context? c).map (fun x => { x with bindings := {} }) =
    (t.context? c).map (fun x => { x with bindings := {} })
  /-- There are the same scripts. -/
  scripts : t'.scripts = t.scripts
  /-- There are the same groups. -/
  groups : t'.groups = t.groups

/-- The bindings of one context may change in one place. -/
theorem rebound_modify (hid : t.Has id) {f : Register String Slot → Register String Slot}
    {found : Option Slot} (hhere : ∀ r, (f r).find? name = found)
    (helsewhere : ∀ r x, x ≠ name → (f r).find? x = r.find? x) :
    t.Rebound (t.modify id (fun c => { c with bindings := f c.bindings })) id name found where
  here := by
    obtain ⟨c, hc⟩ := has_iff.1 hid
    rw [localSlot?, context?_modify, if_pos rfl, hc]
    exact hhere c.bindings
  elsewhere c x hne := by
    rw [localSlot?, localSlot?, context?_modify]
    split
    · rename_i hc
      have hx : x ≠ name := hne.resolve_left fun h => h hc
      cases t.context? c with
      | none => rfl
      | some y => exact helsewhere y.bindings x hx
    · rfl
  frame c := by
    rw [context?_modify]
    split
    · rw [Option.map_map]
      rfl
    · rfl
  scripts := rfl
  groups := rfl

theorem rebound_bind (hid : t.Has id) (slot : Slot) :
    t.Rebound (t.bind id name slot) id name (some slot) := by
  refine rebound_modify hid (f := fun r => r.insert name slot) (fun r => ?_) fun r x hx => ?_
  · rw [Register.find?_insert, if_pos rfl]
  · rw [Register.find?_insert, if_neg hx]

theorem rebound_unbind (hid : t.Has id) : t.Rebound (t.unbind id name) id name none := by
  refine rebound_modify hid (f := fun r => r.erase name) (fun r => ?_) fun r x hx => ?_
  · rw [Register.find?_erase, if_pos rfl]
  · rw [Register.find?_erase, if_neg hx]

/-! ### All look-ups agree -/

/-- Every look-up of a name, from `n` parents further out than `id`, acts on what `owner` binds
it to. -/
structure Resolves (t : Tree) (id : ContextId) (name : String) (n : Nat) (owner : ContextId)
    (found : Slot) : Prop where
  /-- The owner is found. -/
  ownerOf : t.ownerOf id name n = .ok owner
  /-- It binds the name. -/
  bound : t.localSlot? owner name = some found
  /-- What it binds the name to is found. -/
  slot : t.slot id name n = .ok found
  /-- The value is read. -/
  getVariable : t.getVariable id name n = .ok found.value
  /-- The value is read by those who may see it, and others are told whose it is. -/
  getVariableFrom : ∀ accessor, t.getVariableFrom accessor id name n =
    if t.canAccess accessor (some owner) found.protection then .ok found.value
    else .error (.accessDenied owner name found.protection)
  /-- The value is changed, and nothing else is. -/
  setVariable : ∀ value, ∃ t', t.setVariable id name value n = .ok t' ∧
    t.Rebound t' owner name (some { found with value })
  /-- The binding is removed, and nothing else changes. -/
  removeVariable : ∃ t', t.removeVariable id name n = .ok (t', found) ∧
    t.Rebound t' owner name none

/-- Every look-up of a name, from `n` parents further out than `id`, fails with an error. -/
structure Fails (t : Tree) (id : ContextId) (name : String) (n : Nat) (e : Error) : Prop where
  /-- No owner is found. -/
  ownerOf : t.ownerOf id name n = .error e
  /-- No slot is found. -/
  slot : t.slot id name n = .error e
  /-- Nothing is read. -/
  getVariable : t.getVariable id name n = .error e
  /-- Nothing is read for anyone. -/
  getVariableFrom : ∀ accessor, t.getVariableFrom accessor id name n = .error e
  /-- Nothing is changed. -/
  setVariable : ∀ value, t.setVariable id name value n = .error e
  /-- Nothing is removed. -/
  removeVariable : t.removeVariable id name n = .error e

theorem resolves_of_ownerOf {found : Slot} (h : t.ownerOf id name n = .ok owner)
    (hfound : t.localSlot? owner name = some found) : t.Resolves id name n owner found := by
  have hhas : t.Has owner := has_of_localSlot? hfound
  have hresolve : t.resolve id name n = .ok (owner, found) := by
    unfold resolve
    rw [bind_of_ok h, hfound]
    rfl
  exact {
    ownerOf := h
    bound := hfound
    slot := bind_of_ok hresolve
    getVariable := bind_of_ok hresolve
    getVariableFrom := fun _ => bind_of_ok hresolve
    setVariable := fun value =>
      ⟨_, setVariable_eq_of_ownerOf h hfound value, rebound_bind hhas { found with value }⟩
    removeVariable := ⟨_, removeVariable_eq_of_ownerOf h hfound, rebound_unbind hhas⟩ }

theorem fails_of_ownerOf {e : Error} (h : t.ownerOf id name n = .error e) :
    t.Fails id name n e := by
  have hresolve : t.resolve id name n = .error e := bind_of_error h
  exact {
    ownerOf := h
    slot := bind_of_error hresolve
    getVariable := bind_of_error hresolve
    getVariableFrom := fun _ => bind_of_error hresolve
    setVariable := setVariable_eq_of_error h
    removeVariable := removeVariable_eq_of_error h }

/-! ### The owner -/

theorem nthParent_eq_ok_iff : t.nthParent id n = .ok start ↔
    t.Has id ∧ t.outward id n = some start := by
  constructor
  · intro h
    obtain ⟨c, hc, h⟩ := bind_eq_ok_iff.1 h
    refine ⟨has_of_context_eq_ok hc, ?_⟩
    rw [climb_eq_outward] at h
    cases hout : t.outward id n with
    | none =>
      rw [hout] at h
      cases h
    | some d =>
      rw [hout] at h
      cases h
      rfl
  · rintro ⟨hid, hout⟩
    obtain ⟨c, hc⟩ := has_iff.1 hid
    unfold nthParent
    rw [bind_of_ok (context_eq_ok hc), climb_eq_outward, hout]
    rfl

theorem nthParent_eq_ok (hid : t.Has id) (h : t.outward id n = some start) :
    t.nthParent id n = .ok start := nthParent_eq_ok_iff.2 ⟨hid, h⟩

theorem nthParent_eq_error (hid : t.Has id) (h : t.outward id n = none) :
    t.nthParent id n = .error (.chainTooShort id n) := by
  obtain ⟨c, hc⟩ := has_iff.1 hid
  unfold nthParent
  rw [bind_of_ok (context_eq_ok hc), climb_eq_outward, h]
  rfl

/-- Every look-up does one or the other. -/
theorem resolves_or_fails (t : Tree) (id : ContextId) (name : String) (n : Nat) :
    (∃ owner found, t.Resolves id name n owner found) ∨ ∃ e, t.Fails id name n e := by
  cases howner : t.ownerOf id name n with
  | ok owner =>
    obtain ⟨found, hfound⟩ := localSlot?_of_ownerOf howner
    exact .inl ⟨owner, found, resolves_of_ownerOf howner hfound⟩
  | error e => exact .inr ⟨e, fails_of_ownerOf howner⟩

/-- A look-up ends at the first context that binds the name, outwards of where it starts. -/
theorem ownerOf_eq_ok_iff_outward (ht : t.WellFormed) : t.ownerOf id name n = .ok owner ↔
    ∃ start k, t.nthParent id n = .ok start ∧ t.outward start k = some owner ∧
      t.binds owner name = true ∧
      ∀ j < k, ∀ c, t.outward start j = some c → t.binds c name = false := by
  rw [ownerOf_eq_ok_iff]
  refine exists_congr fun start => ?_
  rw [exists_and_left]
  refine and_congr_right fun hstart => ?_
  obtain ⟨hid, hout⟩ := nthParent_eq_ok_iff.1 hstart
  exact find?_ancestors_eq_some_iff ht (ht.has_outward hid hout)

theorem ownerOf_eq_ok (ht : t.WellFormed) (hid : t.Has id) (hstart : t.outward id n = some start)
    {k : Nat} (howner : t.outward start k = some owner) (hbinds : t.binds owner name = true)
    (hfirst : ∀ j < k, ∀ c, t.outward start j = some c → t.binds c name = false) :
    t.ownerOf id name n = .ok owner :=
  (ownerOf_eq_ok_iff_outward ht).2 ⟨start, k, nthParent_eq_ok hid hstart, howner, hbinds, hfirst⟩

/-- A name that is bound somewhere outwards has an owner. -/
theorem exists_ownerOf (ht : t.WellFormed) (hid : t.Has id) {k : Nat} {c : ContextId}
    (hk : t.outward id k = some c) (hbinds : t.binds c name = true) :
    ∃ owner, t.ownerOf id name 0 = .ok owner := by
  cases hfind : (t.ancestors id).find? (fun c => t.binds c name) with
  | none =>
    have hno := (find?_ancestors_eq_none_iff ht hid).1 hfind k c hk
    rw [hbinds] at hno
    cases hno
  | some owner => exact ⟨owner, ownerOf_eq_ok_iff.2 ⟨id, nthParent_eq_ok hid rfl, hfind⟩⟩

/-- Where no context outwards binds the name, there is no owner. -/
theorem ownerOf_eq_error (ht : t.WellFormed) (hid : t.Has id)
    (hstart : t.outward id n = some start)
    (hnone : ∀ k c, t.outward start k = some c → t.binds c name = false) :
    t.ownerOf id name n = .error (.variableNotFound start name) := by
  have hfind : (t.ancestors start).find? (fun c => t.binds c name) = none :=
    (find?_ancestors_eq_none_iff ht (ht.has_outward hid hstart)).2 hnone
  unfold ownerOf
  rw [bind_of_ok (nthParent_eq_ok hid hstart), hfind]
  rfl

/-- Look-ups find exactly what the parent links lead to, whatever tree a program has built. They
start from where the first `n` links lead, and fail if there are not so many. From there they act
on the first context that binds the name, and fail if there is none, however far it is and whether
or not the chain ends. -/
theorem lookup_exact {w : Audit.World} (hw : w.Reachable) (hid : id ∈ w.tree.contextIds)
    (name : String) (n : Nat) :
    (w.tree.outward id n = none →
      w.tree.nthParent id n = .error (.chainTooShort id n) ∧
        w.tree.Fails id name n (.chainTooShort id n)) ∧
    (∀ start, w.tree.outward id n = some start →
      w.tree.nthParent id n = .ok start ∧
      ((∀ k c, w.tree.outward id (n + k) = some c → w.tree.binds c name = false) →
        w.tree.Fails id name n (.variableNotFound start name)) ∧
      ∀ k owner, w.tree.outward id (n + k) = some owner → w.tree.binds owner name = true →
        (∀ j < k, ∀ c, w.tree.outward id (n + j) = some c → w.tree.binds c name = false) →
        ∃ slot, w.tree.Resolves id name n owner slot) := by
  have ht : w.tree.WellFormed := hw.wellFormed.tree
  have hhas : w.tree.Has id := mem_contextIds.1 hid
  constructor
  · intro hshort
    have hnth := nthParent_eq_error hhas hshort
    exact ⟨hnth, fails_of_ownerOf (bind_of_error hnth)⟩
  · intro start hstart
    -- The links behind the first `n` are those that lead on from `start`.
    have hrest : ∀ k, w.tree.outward id (n + k) = w.tree.outward start k := by
      intro k
      rw [outward_add, hstart]
      rfl
    refine ⟨nthParent_eq_ok hhas hstart, fun hnone => ?_, fun k owner howner hbinds hfirst => ?_⟩
    · exact fails_of_ownerOf (ownerOf_eq_error ht hhas hstart fun k c hc =>
        hnone k c ((hrest k).trans hc))
    · obtain ⟨slot, hslot⟩ := Option.isSome_iff_exists.1 hbinds
      rw [hrest] at howner
      have hfound := ownerOf_eq_ok ht hhas hstart howner hbinds fun j hj c hc =>
        hfirst j hj c ((hrest j).trans hc)
      exact ⟨slot, resolves_of_ownerOf hfound hslot⟩

/-- The chain of five goes over four and three into the cycle of one and two, where one binds a
name of its own. -/
def lasso : Audit.World :=
  Audit.tangle.after [.addVariable ⟨1⟩ "far" .group (.integer 7)]

theorem lasso_reachable : lasso.Reachable := Audit.tangle_reachable.after _

/-- From three, two links lead to what one binds. From inside the cycle no link leads to what three
binds. -/
theorem lookup_exact_below_cycle :
    (∃ found, lasso.tree.Resolves ⟨5⟩ "far" 2 ⟨1⟩ found) ∧
      lasso.tree.Fails ⟨5⟩ "kept" 9 (.variableNotFound ⟨2⟩ "kept") := by
  have hround : ∀ k c, lasso.tree.outward ⟨5⟩ (9 + k) = some c →
      lasso.tree.binds c "kept" = false := by
    intro k c hc
    rw [outward_add] at hc
    have hfrom : lasso.tree.outward ⟨2⟩ k = some c := hc
    have htwo : lasso.tree.Has ⟨2⟩ := mem_contextIds.1 (by decide)
    obtain ⟨j, -, hj, hjc⟩ := lasso_reachable.wellFormed.tree.exists_outward_lt htwo hfrom
    have hall : ∀ j < 6, (lasso.tree.outward ⟨2⟩ j).any (lasso.tree.binds · "kept") = false := by
      decide
    have hno := hall j hj
    rw [hjc] at hno
    exact hno
  exact ⟨((lookup_exact lasso_reachable (by decide) "far" 2).2 ⟨3⟩ rfl).2.2 2 ⟨1⟩ rfl
      (by decide) (by decide),
    ((lookup_exact lasso_reachable (by decide) "kept" 9).2 ⟨2⟩ rfl).2.1 hround⟩

end Tree

end Offside.Scope
