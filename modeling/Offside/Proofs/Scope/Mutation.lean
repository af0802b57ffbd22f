import Offside.Proofs.Scope.Chain
import Offside.Scope.Mutation

/-!
# `Offside.Proofs.Scope.Mutation`: what a mutation does, and that failing it does nothing

For each mutation one lemma says when it succeeds, what it answers then and what tree it leaves
behind (`createContext_eq_ok_iff` and so on); nothing else about mutations is ever taken apart.

A mutation is `Atomic` if it leaves the tree as it was whenever it fails. Most mutations first
check and then write: the checks leave the tree alone (`Reads`), the writes never fail (`Sure`), and
one behind the other is atomic (`Reads.bind`, `Sure.atomic`). The removal of a variable is the
exception. It decides whether it fails when it has already written, and it is atomic because the
context that it writes to does bind the name (`localSlot?_of_ownerOf`).
-/

set_option autoImplicit false

namespace Offside.Scope

/-! ### Computations in steps -/

/-- A computation in steps succeeds if the steps do. -/
theorem bind_eq_ok_iff {ε α β : Type} {x : Except ε α} {f : α → Except ε β} {b : β} :
    (x >>= f) = .ok b ↔ ∃ a, x = .ok a ∧ f a = .ok b := by
  cases x with
  | error e => simp [bind, Except.bind]
  | ok a => simp [bind, Except.bind]

/-- A computation in steps goes on from what its first step answers. -/
theorem bind_of_ok {ε α β : Type} {x : Except ε α} {f : α → Except ε β} {a : α}
    (h : x = .ok a) : (x >>= f) = f a := by
  rw [h]
  rfl

/-- A computation in steps fails as its first step does. -/
theorem bind_of_error {ε α β : Type} {x : Except ε α} {f : α → Except ε β} {e : ε}
    (h : x = .error e) : (x >>= f) = .error e := by
  rw [h]
  rfl

section

variable {ε σ α β : Type} {x : EStateM ε σ α} {f : α → EStateM ε σ β} {s s' : σ}

/-- A computation with a state goes on from what its first step answers and leaves behind. -/
theorem bind_eq_of_ok {a : α} (h : x s = .ok a s') : (x >>= f) s = f a s' := by
  show EStateM.bind x f s = _
  rw [EStateM.bind, h]

/-- A computation with a state fails as its first step does. -/
theorem bind_eq_of_error {e : ε} (h : x s = .error e s') : (x >>= f) s = .error e s' := by
  show EStateM.bind x f s = _
  rw [EStateM.bind, h]

end

namespace Tree

variable {t : Tree}

/-! ### What is asked of a tree -/

theorem group_eq_ok_iff {id : GroupId} {g : Group} :
    t.group id = .ok g ↔ t.group? id = some g := by
  rw [group]
  cases t.group? id with
  | none => simp
  | some f => simp

theorem script_eq_ok_iff {id : ScriptId} {s : Script} :
    t.script id = .ok s ↔ t.script? id = some s := by
  rw [script]
  cases t.script? id with
  | none => simp
  | some f => simp

theorem has_of_context_eq_ok {id : ContextId} {c : Context} (h : t.context id = .ok c) :
    t.Has id := has_iff.2 ⟨c, context_eq_ok_iff.1 h⟩

theorem exists_context_eq_ok_iff {id : ContextId} : (∃ c, t.context id = .ok c) ↔ t.Has id := by
  simp only [context_eq_ok_iff, has_iff]

theorem has_of_localSlot? {id : ContextId} {name : String} {slot : Slot}
    (h : t.localSlot? id name = some slot) : t.Has id := by
  obtain ⟨c, hc, -⟩ := Option.bind_eq_some_iff.1 h
  exact has_iff.2 ⟨c, hc⟩

theorem ownerOf_eq_ok_iff {id owner : ContextId} {name : String} {n : Nat} :
    t.ownerOf id name n = .ok owner ↔
      ∃ start, t.nthParent id n = .ok start ∧
        (t.ancestors start).find? (fun c => t.binds c name) = some owner := by
  unfold ownerOf
  rw [bind_eq_ok_iff]
  refine exists_congr fun start => and_congr_right fun _ => ?_
  cases (t.ancestors start).find? (fun c => t.binds c name) with
  | none => exact iff_of_false nofun nofun
  | some c => exact ⟨fun h => congrArg some (Except.ok.inj h), fun h => by cases h; rfl⟩

/-- An owner binds the name. -/
theorem localSlot?_of_ownerOf {id owner : ContextId} {name : String} {n : Nat}
    (h : t.ownerOf id name n = .ok owner) : ∃ found, t.localSlot? owner name = some found := by
  obtain ⟨start, -, hfind⟩ := ownerOf_eq_ok_iff.1 h
  have hbinds := List.find?_some hfind
  exact Option.isSome_iff_exists.1 hbinds

/-- The tree where a context binds none of some names. -/
def unbindAll (t : Tree) (id : ContextId) (names : List String) : Tree :=
  names.foldl (fun t name => t.unbind id name) t

end Tree

namespace Mutation

variable {α β : Type} {t t' : Tree}

/-! ### Steps -/

theorem ask_eq_of_ok {f : Tree → Except Error α} {a : α} (h : f t = .ok a) :
    ask f t = .ok a t := by
  rw [ask, h]

theorem ask_eq_of_error {f : Tree → Except Error α} {e : Error} (h : f t = .error e) :
    ask f t = .error e t := by
  rw [ask, h]

/-- What begins with a question succeeds if the question has an answer and the rest succeeds. -/
theorem ask_bind_eq_ok_iff {f : Tree → Except Error α} {k : α → Mutation β} {b : β} :
    (ask f >>= k) t = .ok b t' ↔ ∃ a, f t = .ok a ∧ k a t = .ok b t' := by
  cases h : f t with
  | ok a => simp [bind_eq_of_ok (ask_eq_of_ok h)]
  | error e => simp [bind_eq_of_error (ask_eq_of_error h)]

theorem write_eq_ok_iff {f : Tree → Tree} : write f t = .ok () t' ↔ f t = t' := by
  simp [write]

theorem push_eq_ok_iff {c : Context} {id : ContextId} :
    push c t = .ok id t' ↔ t.push c = (t', id) := by
  simp [push, Prod.ext_iff, and_comm]

theorem result_eq_ok_iff {x : Mutation α} {a : α} : x.result t = .ok (t', a) ↔ x t = .ok a t' := by
  rw [result]
  cases x t with
  | ok b s => simp [and_comm]
  | error e s => simp

/-! ### Atomic mutations -/

/-- A mutation that leaves the tree alone. -/
def Reads (x : Mutation α) : Prop := ∀ t, (∃ a, x t = .ok a t) ∨ ∃ e, x t = .error e t

/-- A mutation that never fails. -/
def Sure (x : Mutation α) : Prop := ∀ t, ∃ a t', x t = .ok a t'

/-- A mutation that leaves the tree as it was if it fails. -/
def Atomic (x : Mutation α) : Prop := ∀ t e t', x t = .error e t' → t' = t

theorem reads_ask (f : Tree → Except Error α) : Reads (ask f) := by
  intro t
  cases h : f t with
  | ok a => exact .inl ⟨a, ask_eq_of_ok h⟩
  | error e => exact .inr ⟨e, ask_eq_of_error h⟩

theorem reads_get : Reads get := fun t => .inl ⟨t, rfl⟩

theorem sure_pure (a : α) : Sure (pure a : Mutation α) := fun t => ⟨a, t, rfl⟩

theorem sure_write (f : Tree → Tree) : Sure (write f) := fun t => ⟨(), f t, rfl⟩

theorem sure_push (c : Context) : Sure (push c) := fun t => ⟨(t.push c).2, (t.push c).1, rfl⟩

theorem Sure.bind {x : Mutation α} {k : α → Mutation β} (hx : Sure x) (hk : ∀ a, Sure (k a)) :
    Sure (x >>= k) := by
  intro t
  obtain ⟨a, s, h⟩ := hx t
  rw [bind_eq_of_ok h]
  exact hk a s

theorem Sure.atomic {x : Mutation α} (hx : Sure x) : Atomic x := by
  intro t e t' herror
  obtain ⟨a, s, h⟩ := hx t
  rw [h] at herror
  cases herror

/-- What is atomic stays so behind checks. -/
theorem Reads.bind {x : Mutation α} {k : α → Mutation β} (hx : Reads x) (hk : ∀ a, Atomic (k a)) :
    Atomic (x >>= k) := by
  intro t e t' herror
  rcases hx t with ⟨a, h⟩ | ⟨e', h⟩
  · rw [bind_eq_of_ok h] at herror
    exact hk a t e t' herror
  · rw [bind_eq_of_error h] at herror
    cases herror
    rfl

-- A check behind a write comes too late: the tree keeps the context that was pushed.
example : ¬ Atomic (do let _ ← push {}; ask (·.context ⟨9⟩) : Mutation Context) := fun h =>
  absurd (h .new (.unknownContext ⟨9⟩) _ rfl) (by decide)

/-! ### Opening -/

theorem createContext_eq_ok_iff {parent id : ContextId} :
    createContext parent t = .ok id t' ↔
      t.Has parent ∧ t.push { parent := some parent } = (t', id) := by
  unfold createContext
  rw [ask_bind_eq_ok_iff, exists_and_right, Tree.exists_context_eq_ok_iff, push_eq_ok_iff]

theorem atomic_createContext (parent : ContextId) : Atomic (createContext parent) :=
  (reads_ask _).bind fun _ => (sure_push _).atomic

theorem createScriptContext_eq_ok_iff {parent id : ContextId} {script : ScriptId} :
    createScriptContext parent script t = .ok id t' ↔
      t.Has parent ∧ ∃ s, t.script? script = some s ∧
        t.push { parent := some parent, script := some script, group := s.group } = (t', id) := by
  unfold createScriptContext
  simp only [ask_bind_eq_ok_iff, exists_and_right, Tree.exists_context_eq_ok_iff,
    Tree.script_eq_ok_iff, push_eq_ok_iff]

theorem atomic_createScriptContext (parent : ContextId) (script : ScriptId) :
    Atomic (createScriptContext parent script) :=
  (reads_ask _).bind fun _ => (reads_ask _).bind fun _ => (sure_push _).atomic

theorem createDetached_eq_ok_iff {id : ContextId} :
    createDetached t = .ok id t' ↔ t.push {} = (t', id) := push_eq_ok_iff

theorem atomic_createDetached : Atomic createDetached := (sure_push _).atomic

/-- The new group has a scope of its own, which is the last context. -/
theorem addGroup_eq_ok_iff {name : String} {parent id : GroupId} :
    addGroup name parent t = .ok id t' ↔
      ∃ g, t.group? parent = some g ∧ id = ⟨t.groups.length⟩ ∧
        t' = { (t.push { parent := some g.context, group := some id }).1 with
          groups := t.groups ++
            [{ name, parent := some parent, context := ⟨t.contexts.length⟩ }] } := by
  unfold addGroup
  rw [ask_bind_eq_ok_iff]
  refine exists_congr fun g => and_congr Tree.group_eq_ok_iff ?_
  constructor
  · rintro ⟨⟩
    exact ⟨rfl, rfl⟩
  · rintro ⟨rfl, rfl⟩
    rfl

/-- The scope of a group is written before the group, and neither can fail. -/
theorem atomic_addGroup (name : String) (parent : GroupId) : Atomic (addGroup name parent) := by
  refine (reads_ask _).bind fun g => reads_get.bind fun t => Sure.atomic ?_
  exact (sure_push _).bind fun context => (sure_write _).bind fun _ => sure_pure _

/-- The new script is a member of its group, if it has one. -/
theorem addScript_eq_ok_iff {name directory : String} {lines : List String}
    {group : Option GroupId} {id : ScriptId} :
    addScript name directory lines group t = .ok id t' ↔
      (∀ g ∈ group, ∃ x, t.group? g = some x) ∧ id = ⟨t.scripts.length⟩ ∧
        t' = { group.elim t (t.enroll id) with
          scripts := t.scripts ++ [{ name, directory, lines, group }] } := by
  cases group with
  | none =>
    constructor
    · rintro ⟨⟩
      exact ⟨nofun, rfl, rfl⟩
    · rintro ⟨-, rfl, rfl⟩
      rfl
  | some g =>
    have hrest : addScript name directory lines (some g) t = .ok id t' ↔
        ∃ x, t.group g = .ok x ∧ id = ⟨t.scripts.length⟩ ∧
          t' = { t.enroll id g with
            scripts := t.scripts ++ [{ name, directory, lines, group := some g }] } := by
      refine (ask_bind_eq_ok_iff (f := (·.group g))).trans ?_
      refine exists_congr fun x => and_congr_right fun _ => ?_
      constructor
      · rintro ⟨⟩
        exact ⟨rfl, rfl⟩
      · rintro ⟨rfl, rfl⟩
        rfl
    rw [hrest]
    simp [Tree.group_eq_ok_iff]

/-- The group is looked up before it gets its new member. -/
theorem atomic_addScript (name directory : String) (lines : List String)
    (group : Option GroupId) : Atomic (addScript name directory lines group) := by
  refine reads_get.bind fun t => ?_
  have hrest (id : ScriptId) : Sure (do
      write (fun t => { t with scripts := t.scripts ++ [{ name, directory, lines, group }] })
      return id) := (sure_write _).bind fun _ => sure_pure id
  cases group with
  | none => exact (hrest _).atomic
  | some g => exact (reads_ask _).bind fun _ => ((sure_write _).bind fun _ => hrest _).atomic

/-! ### Links -/

theorem link_eq_ok_iff {id : ContextId} {parent : Option ContextId} :
    link id parent t = .ok () t' ↔
      t.Has id ∧ t' = if id = .global then t else t.modify id (fun c => { c with parent }) := by
  unfold link
  rw [ask_bind_eq_ok_iff, exists_and_right, Tree.exists_context_eq_ok_iff]
  refine and_congr_right fun _ => ?_
  by_cases h : id = .global
  · rw [if_neg (not_not.2 h), if_pos h]
    exact ⟨fun hpure => by cases hpure; rfl, fun hsame => by rw [hsame]; rfl⟩
  · rw [if_pos h, if_neg h, write_eq_ok_iff, eq_comm]

theorem atomic_link (id : ContextId) (parent : Option ContextId) : Atomic (link id parent) := by
  refine (reads_ask _).bind fun _ => Sure.atomic ?_
  split
  · exact sure_write _
  · exact sure_pure ()

/-- A context gets another parent if both exist, unless it is the global one. -/
theorem reparent_eq_ok_iff {id : ContextId} {parent : Option ContextId} :
    reparent id parent t = .ok () t' ↔
      (∀ p ∈ parent, t.Has p) ∧ t.Has id ∧
        t' = if id = .global then t else t.modify id (fun c => { c with parent }) := by
  rw [← link_eq_ok_iff]
  cases parent with
  | none =>
    show link id none t = .ok () t' ↔ _
    simp
  | some p =>
    refine (ask_bind_eq_ok_iff (f := (·.context p))).trans ?_
    rw [exists_and_right, Tree.exists_context_eq_ok_iff]
    simp

theorem atomic_reparent (id : ContextId) (parent : Option ContextId) :
    Atomic (reparent id parent) := by
  cases parent with
  | none => exact atomic_link id none
  | some p => exact (reads_ask _).bind fun _ => atomic_link id (some p)

theorem atomic_orphan (id : ContextId) : Atomic (orphan id) := atomic_reparent id _

/-! ### Bindings -/

/-- A name is bound unless it was bound before. -/
theorem addVariable_eq_ok_iff {id : ContextId} {name : String} {protection : Protection}
    {value : Value} {added : Bool} :
    addVariable id name protection value t = .ok added t' ↔
      t.Has id ∧ (t', added) =
        if t.binds id name then (t, false) else (t.bind id name { protection, value }, true) := by
  unfold addVariable
  rw [ask_bind_eq_ok_iff, ← Tree.exists_context_eq_ok_iff, ← exists_and_right]
  refine exists_congr fun c => and_congr_right fun hc => ?_
  have hbinds : t.binds id name = c.bindings.contains name := by
    rw [Tree.binds, Tree.localSlot?, Tree.context_eq_ok_iff.1 hc]
    rfl
  rw [hbinds]
  split
  · exact ⟨fun h => by cases h; rfl, fun h => by cases h; rfl⟩
  · exact ⟨fun h => by cases h; rfl, fun h => by cases h; rfl⟩

theorem atomic_addVariable (id : ContextId) (name : String) (protection : Protection)
    (value : Value) : Atomic (addVariable id name protection value) := by
  refine (reads_ask _).bind fun c => Sure.atomic ?_
  split
  · exact sure_pure false
  · exact (sure_write _).bind fun _ => sure_pure true

section

variable {id owner : ContextId} {name : String} {value : Value} {n : Nat} {slot found : Slot}

/-- The owner gets the new value. -/
theorem setVariable_eq_of_ownerOf (howner : t.ownerOf id name n = .ok owner)
    (hslot : t.localSlot? owner name = some slot) :
    setVariable id name value n t = .ok () (t.bind owner name { slot with value }) := by
  have hget : (get : Mutation Tree) t = .ok t t := rfl
  unfold setVariable
  rw [bind_eq_of_ok (ask_eq_of_ok howner), bind_eq_of_ok hget, hslot]
  rfl

theorem setVariable_eq_of_error {e : Error} (h : t.ownerOf id name n = .error e) :
    setVariable id name value n t = .error e t := bind_eq_of_error (ask_eq_of_error h)

theorem setVariable_eq_ok_iff :
    setVariable id name value n t = .ok () t' ↔
      ∃ owner slot, t.ownerOf id name n = .ok owner ∧ t.localSlot? owner name = some slot ∧
        t' = t.bind owner name { slot with value } := by
  cases howner : t.ownerOf id name n with
  | error e => simp [setVariable_eq_of_error howner]
  | ok owner =>
    obtain ⟨slot, hslot⟩ := Tree.localSlot?_of_ownerOf howner
    simp [setVariable_eq_of_ownerOf howner hslot, hslot, eq_comm]

theorem atomic_setVariable (id : ContextId) (name : String) (value : Value) (n : Nat) :
    Atomic (setVariable id name value n) := by
  refine (reads_ask _).bind fun owner => reads_get.bind fun t => Sure.atomic ?_
  cases t.localSlot? owner name with
  | none => exact sure_pure ()
  | some slot => exact sure_write _

/-- The owner loses the name. -/
theorem removeVariable_eq_of_ownerOf (howner : t.ownerOf id name n = .ok owner)
    (hslot : t.localSlot? owner name = some slot) :
    removeVariable id name n t = .ok slot (t.unbind owner name) := by
  have hremove : removeLocal owner name t = .ok (some slot) (t.unbind owner name) := by
    rw [removeLocal, hslot]
  unfold removeVariable
  rw [bind_eq_of_ok (ask_eq_of_ok howner), bind_eq_of_ok hremove]
  rfl

theorem removeVariable_eq_of_error {e : Error} (h : t.ownerOf id name n = .error e) :
    removeVariable id name n t = .error e t := bind_eq_of_error (ask_eq_of_error h)

theorem removeVariable_eq_ok_iff :
    removeVariable id name n t = .ok found t' ↔
      ∃ owner, t.ownerOf id name n = .ok owner ∧ t.localSlot? owner name = some found ∧
        t' = t.unbind owner name := by
  cases howner : t.ownerOf id name n with
  | error e => simp [removeVariable_eq_of_error howner]
  | ok owner =>
    obtain ⟨slot, hslot⟩ := Tree.localSlot?_of_ownerOf howner
    simp [removeVariable_eq_of_ownerOf howner hslot, hslot, eq_comm]

/-- It has written when it finds out whether it fails. But an owner binds the name, so it does not
fail there. -/
theorem atomic_removeVariable (id : ContextId) (name : String) (n : Nat) :
    Atomic (removeVariable id name n) := by
  intro t e t' herror
  cases howner : t.ownerOf id name n with
  | error e' =>
    rw [removeVariable_eq_of_error howner] at herror
    cases herror
    rfl
  | ok owner =>
    obtain ⟨slot, hslot⟩ := Tree.localSlot?_of_ownerOf howner
    rw [removeVariable_eq_of_ownerOf howner hslot] at herror
    cases herror

end

/-- Whatever the names are, their removal never fails. -/
theorem forM_removeLocal (id : ContextId) (names : List String) (t : Tree) :
    (names.forM (fun name => discard (removeLocal id name)) : Mutation Unit) t =
      .ok () (t.unbindAll id names) := by
  induction names generalizing t with
  | nil => rfl
  | cons name names ih =>
    have hfirst : (discard (removeLocal id name) : Mutation Unit) t =
        .ok () (t.unbind id name) := rfl
    exact (bind_eq_of_ok hfirst).trans (ih (t.unbind id name))

theorem removeNames_eq_ok_iff {id : ContextId} {names : List String} :
    removeNames id names t = .ok () t' ↔ t.Has id ∧ t' = t.unbindAll id names := by
  unfold removeNames
  rw [ask_bind_eq_ok_iff, exists_and_right, Tree.exists_context_eq_ok_iff, forM_removeLocal]
  simp [eq_comm]

theorem atomic_removeNames (id : ContextId) (names : List String) :
    Atomic (removeNames id names) :=
  (reads_ask _).bind fun _ => Sure.atomic fun t => ⟨(), _, forM_removeLocal id names t⟩

end Mutation

namespace Tree

/-! ### Results -/

variable {t : Tree} {id owner : ContextId} {name : String} {n : Nat} {slot : Slot} {e : Error}

theorem addVariable_eq (hid : t.Has id) (name : String) (protection : Protection)
    (value : Value) :
    t.addVariable id name protection value =
      .ok (if t.binds id name then (t, false) else (t.bind id name ⟨protection, value⟩, true)) :=
  Mutation.result_eq_ok_iff.2 (Mutation.addVariable_eq_ok_iff.2 ⟨hid, rfl⟩)

theorem setVariable_eq_of_ownerOf (howner : t.ownerOf id name n = .ok owner)
    (hslot : t.localSlot? owner name = some slot) (value : Value) :
    t.setVariable id name value n = .ok (t.bind owner name { slot with value }) := by
  rw [setVariable, Mutation.result, Mutation.setVariable_eq_of_ownerOf howner hslot]
  rfl

theorem setVariable_eq_of_error (h : t.ownerOf id name n = .error e) (value : Value) :
    t.setVariable id name value n = .error e := by
  rw [setVariable, Mutation.result, Mutation.setVariable_eq_of_error h]
  rfl

theorem removeVariable_eq_of_ownerOf (howner : t.ownerOf id name n = .ok owner)
    (hslot : t.localSlot? owner name = some slot) :
    t.removeVariable id name n = .ok (t.unbind owner name, slot) :=
  Mutation.result_eq_ok_iff.2 (Mutation.removeVariable_eq_of_ownerOf howner hslot)

theorem removeVariable_eq_of_error (h : t.ownerOf id name n = .error e) :
    t.removeVariable id name n = .error e := by
  rw [removeVariable, Mutation.result, Mutation.removeVariable_eq_of_error h]

end Tree

end Offside.Scope
