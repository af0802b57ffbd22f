import Offside.Proofs.Audit.Steps

/-!
# `Offside.Proofs.Scope.Coherence`: how contexts, scripts and groups fit together

A tree keeps three lists whose entries name each other by number. `Coherent` says that the numbers
fit: whatever is named exists, a context that runs a script belongs to that script's group, the
scope of a group belongs to that group, groups lie in groups with smaller numbers, and the members
of a group are the scripts that belong to it.

Nothing is ever taken away and no script or context changes its group (`Grows`), so what is in
its place stays there (`Context.Placed.mono`, `Group.Placed.mono`), and for every change there
remains what it adds: `Coherent.push` for contexts, `Coherent.addGroup` for groups,
`Coherent.addScript` for scripts and `Coherent.modify` for new links and bindings.
`after_coherent` is the result for every run of operations.
-/

set_option autoImplicit false

namespace Offside.Scope

/-- What a context names exists, and it belongs to the group of the script it runs. -/
structure Context.Placed (t : Tree) (c : Context) : Prop where
  /-- Its parent exists. -/
  parent : ∀ p ∈ c.parent, t.Has p
  /-- Its script exists, and it belongs to the script's group. -/
  script : ∀ s ∈ c.script, ∃ x, t.script? s = some x ∧ x.group = c.group
  /-- Its group exists. -/
  group : ∀ g ∈ c.group, ∃ x, t.group? g = some x

/-- What the group of a number names exists, and it has its own scope and lies in an older
group. -/
structure Group.Placed (t : Tree) (id : GroupId) (g : Group) : Prop where
  /-- Its scope exists and belongs to it. -/
  scope : ∃ c, t.context? g.context = some c ∧ c.group = some id
  /-- The group it lies in exists. -/
  parent : ∀ p ∈ g.parent, ∃ x, t.group? p = some x
  /-- It lies in a group with a smaller number, unless it is the global one. -/
  nested : id ≠ .global → ∃ p, g.parent = some p ∧ p.index < id.index

namespace Tree

variable {t t' : Tree}

/-- The contexts, scripts and groups of a tree fit together. -/
structure Coherent (t : Tree) : Prop where
  /-- The global context exists. It has no parent, runs no script and belongs to the global
  group. -/
  global : ∃ c, t.context? .global = some c ∧ c.parent = none ∧ c.script = none ∧
    c.group = some .global
  /-- The global group exists. It lies in no other, and its scope is the global context. -/
  globalGroup : ∃ g, t.group? .global = some g ∧ g.parent = none ∧ g.context = .global
  /-- What contexts name exists. -/
  contexts : ∀ id c, t.context? id = some c → c.Placed t
  /-- The groups of scripts exist. -/
  scripts : ∀ id s, t.script? id = some s → ∀ g ∈ s.group, ∃ x, t.group? g = some x
  /-- What groups name exists. -/
  groups : ∀ id g, t.group? id = some g → g.Placed t id
  /-- The members of a group are the scripts that belong to it. -/
  members : ∀ id g, t.group? id = some g → ∀ s,
    g.hasScript s = true ↔ ∃ x, t.script? s = some x ∧ x.group = some id

/-- What is there stays there: contexts in their groups, and scripts as they were. -/
structure Grows (t t' : Tree) : Prop where
  /-- Contexts stay in their groups. -/
  contexts : ∀ id c, t.context? id = some c → ∃ d, t'.context? id = some d ∧ d.group = c.group
  /-- Scripts stay as they were. -/
  scripts : ∀ id s, t.script? id = some s → t'.script? id = some s
  /-- Groups stay. -/
  groups : ∀ id g, t.group? id = some g → ∃ x, t'.group? id = some x

theorem Grows.has (h : t.Grows t') {id : ContextId} (hid : t.Has id) : t'.Has id := by
  obtain ⟨c, hc⟩ := has_iff.1 hid
  obtain ⟨d, hd, -⟩ := h.contexts id c hc
  exact has_iff.2 ⟨d, hd⟩

end Tree

theorem Context.Placed.mono {t t' : Tree} {c : Context} (h : c.Placed t) (hgrows : t.Grows t') :
    c.Placed t' where
  parent p hp := hgrows.has (h.parent p hp)
  script s hs := by
    obtain ⟨x, hx, hgroup⟩ := h.script s hs
    exact ⟨x, hgrows.scripts s x hx, hgroup⟩
  group g hg := by
    obtain ⟨x, hx⟩ := h.group g hg
    exact hgrows.groups g x hx

/-- A context may change its parent for another one that exists. -/
theorem Context.Placed.relink {t : Tree} {c d : Context} (h : c.Placed t)
    (hparent : d.parent = c.parent ∨ ∀ p ∈ d.parent, t.Has p) (hscript : d.script = c.script)
    (hgroup : d.group = c.group) : d.Placed t where
  parent p hp := by
    rcases hparent with hsame | hhas
    · exact h.parent p (hsame ▸ hp)
    · exact hhas p hp
  script s hs := by
    rw [hscript] at hs
    rw [hgroup]
    exact h.script s hs
  group g hg := h.group g (hgroup ▸ hg)

theorem Group.Placed.mono {t t' : Tree} {id : GroupId} {g : Group} (h : g.Placed t id)
    (hgrows : t.Grows t') : g.Placed t' id where
  scope := by
    obtain ⟨c, hc, hgroup⟩ := h.scope
    obtain ⟨d, hd, hsame⟩ := hgrows.contexts g.context c hc
    exact ⟨d, hd, hsame.trans hgroup⟩
  parent p hp := by
    obtain ⟨x, hx⟩ := h.parent p hp
    exact hgrows.groups p x hx
  nested := h.nested

namespace Tree

variable {t t' : Tree}

/-! ### The new tree -/

theorem coherent_new : new.Coherent where
  global := ⟨_, rfl, rfl, rfl, rfl⟩
  globalGroup := ⟨_, rfl, rfl, rfl⟩
  contexts id c hc := by
    cases List.mem_singleton.1 (List.mem_of_getElem? hc)
    refine ⟨fun p hp => ?_, fun s hs => ?_, fun g hg => ?_⟩
    · cases hp
    · cases hs
    · cases hg
      exact ⟨_, rfl⟩
  scripts id s hs := by cases hs
  groups id g hg := by
    obtain ⟨index⟩ := id
    rw [group?, new, List.getElem?_singleton] at hg
    split at hg
    · rename_i hindex
      cases hindex
      cases hg
      refine ⟨⟨_, rfl, rfl⟩, fun p hp => ?_, fun hne => absurd rfl hne⟩
      cases hp
    · cases hg
  members id g hg s := by
    cases List.mem_singleton.1 (List.mem_of_getElem? hg)
    refine iff_of_false Bool.false_ne_true ?_
    rintro ⟨x, hx, -⟩
    cases hx

/-! ### Contexts -/

theorem grows_push (c : Context) : t.Grows (t.push c).1 where
  contexts id d hd := by
    refine ⟨d, ?_, rfl⟩
    rw [context?_push, if_neg (Nat.ne_of_lt (has_iff.2 ⟨d, hd⟩))]
    exact hd
  scripts _ _ hs := hs
  groups _ g hg := ⟨g, hg⟩

theorem grows_modify (id : ContextId) {f : Context → Context} (hf : ∀ c, (f c).group = c.group) :
    t.Grows (t.modify id f) where
  contexts c x hx := by
    rw [context?_modify, hx]
    split
    · exact ⟨f x, rfl, hf x⟩
    · exact ⟨x, rfl, rfl⟩
  scripts _ _ hs := hs
  groups _ g hg := ⟨g, hg⟩

namespace Coherent

theorem global_push (h : t.Coherent) (c : Context) :
    ∃ d, (t.push c).1.context? .global = some d ∧ d.parent = none ∧ d.script = none ∧
      d.group = some .global := by
  obtain ⟨d, hd, hrest⟩ := h.global
  refine ⟨d, ?_, hrest⟩
  rw [context?_push, if_neg (Nat.ne_of_lt (has_iff.2 ⟨d, hd⟩))]
  exact hd

/-- A context may be added whose parent, script and group exist. -/
theorem push (h : t.Coherent) {c : Context} (hc : c.Placed t) : (t.push c).1.Coherent where
  global := h.global_push c
  globalGroup := h.globalGroup
  contexts id d hd := by
    rw [context?_push] at hd
    split at hd
    · cases hd
      exact hc.mono (grows_push c)
    · exact (h.contexts id d hd).mono (grows_push c)
  scripts := h.scripts
  groups id g hg := (h.groups id g hg).mono (grows_push c)
  members := h.members

/-- A context may change in a way that keeps its script and its group, and that keeps its parent or
gives it another context for one, if it is not the global context. -/
theorem modify (h : t.Coherent) {id : ContextId} {f : Context → Context}
    (hparent : ∀ c, (f c).parent = c.parent ∨ id ≠ .global ∧ ∀ p ∈ (f c).parent, t.Has p)
    (hscript : ∀ c, (f c).script = c.script) (hgroup : ∀ c, (f c).group = c.group) :
    (t.modify id f).Coherent where
  global := by
    obtain ⟨c, hc, hroot, hidle, hglobal⟩ := h.global
    rw [context?_modify, hc]
    split
    · rename_i hid
      refine ⟨f c, rfl, ?_, (hscript c).trans hidle, (hgroup c).trans hglobal⟩
      rcases hparent c with hsame | ⟨hne, -⟩
      · exact hsame.trans hroot
      · exact absurd hid.symm hne
    · exact ⟨c, rfl, hroot, hidle, hglobal⟩
  globalGroup := h.globalGroup
  contexts c x hx := by
    rw [context?_modify] at hx
    split at hx
    · obtain ⟨y, hy, rfl⟩ := Option.map_eq_some_iff.1 hx
      have hlink := (hparent y).imp_right And.right
      exact ((h.contexts c y hy).relink hlink (hscript y) (hgroup y)).mono (grows_modify id hgroup)
    · exact (h.contexts c x hx).mono (grows_modify id hgroup)
  scripts := h.scripts
  groups g x hx := (h.groups g x hx).mono (grows_modify id hgroup)
  members := h.members

end Coherent

/-! ### Groups -/

/-- What is in a list with one more entry at its end. -/
theorem getElem?_concat_eq_some_iff {α : Type} {l : List α} {a b : α} {i : Nat} :
    (l ++ [a])[i]? = some b ↔ l[i]? = some b ∨ i = l.length ∧ b = a := by
  rcases Nat.lt_trichotomy i l.length with hlt | rfl | hgt
  · rw [List.getElem?_append_left hlt]
    simp [Nat.ne_of_lt hlt]
  · simp [eq_comm]
  · have hnone : (l ++ [a])[i]? = none := List.getElem?_eq_none (by simp; omega)
    rw [hnone, List.getElem?_eq_none (Nat.le_of_lt hgt)]
    simp [Nat.ne_of_gt hgt]

theorem grows_push_group (t : Tree) (c : Context) (g : Group) :
    t.Grows { (t.push c).1 with groups := t.groups ++ [g] } where
  contexts := (grows_push c).contexts
  scripts _ _ hs := hs
  groups _ x hx := ⟨x, getElem?_concat_eq_some_iff.2 (.inl hx)⟩

namespace Coherent

/-- No script belongs to a group that does not exist. -/
theorem group_ne (h : t.Coherent) {id : GroupId} (hid : t.group? id = none) {s : ScriptId}
    {x : Script} (hx : t.script? s = some x) : x.group ≠ some id := by
  intro hgroup
  obtain ⟨g, hg⟩ := h.scripts s x hx id hgroup
  rw [hid] at hg
  cases hg

/-- A group may be added with a scope of its own that hangs below the scope of the group it lies
in. -/
theorem addGroup (h : t.Coherent) {name : String} {parent : GroupId} {g : Group}
    (hg : t.group? parent = some g) :
    Coherent
      { (t.push { parent := some g.context, group := some ⟨t.groups.length⟩ }).1 with
        groups := t.groups ++
          [{ name, parent := some parent, context := ⟨t.contexts.length⟩ }] } := by
  have hgrows := grows_push_group t
    { parent := some g.context, group := some ⟨t.groups.length⟩ }
    { name, parent := some parent, context := ⟨t.contexts.length⟩ }
  have hnew : t.group? ⟨t.groups.length⟩ = none := List.getElem?_eq_none (Nat.le_refl _)
  exact {
    global := h.global_push _
    globalGroup := by
      obtain ⟨f, hf, hroot⟩ := h.globalGroup
      exact ⟨f, getElem?_concat_eq_some_iff.2 (.inl hf), hroot⟩
    contexts := fun id c hc => by
      change (t.push _).1.context? id = some c at hc
      rw [context?_push] at hc
      split at hc
      -- The scope of the new group hangs below the scope of the group it lies in.
      · cases hc
        refine ⟨fun p hp => ?_, nofun, fun p hp => ?_⟩
        · cases hp
          obtain ⟨outer, houter, -⟩ := (h.groups parent g hg).scope
          exact hgrows.has (has_iff.2 ⟨outer, houter⟩)
        · cases hp
          exact ⟨_, getElem?_concat_eq_some_iff.2 (.inr ⟨rfl, rfl⟩)⟩
      · exact (h.contexts id c hc).mono hgrows
    scripts := fun id s hs p hp => by
      obtain ⟨x, hx⟩ := h.scripts id s hs p hp
      exact hgrows.groups p x hx
    groups := fun ⟨i⟩ x hx => by
      rcases getElem?_concat_eq_some_iff.1 hx with hx | ⟨rfl, rfl⟩
      · exact (h.groups _ x hx).mono hgrows
      · refine ⟨⟨_, (context?_push t _ _).trans (if_pos rfl), rfl⟩, fun p hp => ?_, fun _ => ?_⟩
        · cases hp
          exact hgrows.groups parent g hg
        · exact ⟨parent, rfl, (List.getElem?_eq_some_iff.1 hg).1⟩
    members := fun ⟨i⟩ x hx s => by
      rcases getElem?_concat_eq_some_iff.1 hx with hx | ⟨rfl, rfl⟩
      · exact h.members _ x hx s
      · exact ⟨nofun, fun ⟨y, hy, hgroup⟩ => absurd hgroup (h.group_ne hnew hy)⟩ }

end Coherent

/-! ### Scripts -/

/-- Enrolling a script makes it a member of one group. -/
theorem group?_enroll (t : Tree) (script : ScriptId) (group id : GroupId) :
    (t.enroll script group).group? id = (t.group? id).map (fun x =>
      { x with members := if group = id then x.members ++ [script] else x.members }) := by
  obtain ⟨i⟩ := group
  obtain ⟨j⟩ := id
  simp only [enroll, group?, List.getElem?_modify, GroupId.mk.injEq]
  split <;> rfl

section addScript

variable {s : Script} {groups : List Group}

theorem grows_addScript
    (hgroups : ∀ id g, t.group? id = some g → ∃ x, groups[id.index]? = some x) :
    t.Grows { t with scripts := t.scripts ++ [s], groups } where
  contexts _ c hc := ⟨c, hc, rfl⟩
  scripts _ _ hx := getElem?_concat_eq_some_iff.2 (.inl hx)
  groups := hgroups

/-- If the new script becomes a member of its own group and of no other, members still are what they
should be. -/
theorem hasScript_addScript {id : GroupId} {f g : Group}
    (hf : f.members =
      if s.group = some id then g.members ++ [⟨t.scripts.length⟩] else g.members)
    (hg : ∀ i, g.hasScript i = true ↔ ∃ x, t.script? i = some x ∧ x.group = some id)
    (i : ScriptId) :
    f.hasScript i = true ↔ ∃ x, (t.scripts ++ [s])[i.index]? = some x ∧ x.group = some id := by
  obtain ⟨i⟩ := i
  have hnew : (∃ x, (t.scripts ++ [s])[i]? = some x ∧ x.group = some id) ↔
      g.hasScript ⟨i⟩ = true ∨ i = t.scripts.length ∧ s.group = some id := by
    rw [hg]
    simp only [getElem?_concat_eq_some_iff, or_and_right, exists_or, and_assoc, exists_and_left,
      exists_eq_left]
    rfl
  refine Iff.trans ?_ hnew.symm
  rw [Group.hasScript, Group.hasScript, hf]
  split
  · rename_i hgroup
    simp [hgroup]
  · rename_i hgroup
    simp [hgroup]

end addScript

namespace Coherent

/-- A script may be added that belongs to no group or to one that exists, if it becomes a member of
that group and of no other. -/
theorem addScript (h : t.Coherent) {s : Script} (hs : ∀ g ∈ s.group, ∃ x, t.group? g = some x)
    {groups : List Group}
    (hgroups : ∀ id : GroupId, groups[id.index]? = (t.group? id).map (fun x =>
      { x with members :=
          if s.group = some id then x.members ++ [⟨t.scripts.length⟩] else x.members })) :
    Coherent { t with scripts := t.scripts ++ [s], groups } := by
  have hkept : ∀ id g, t.group? id = some g → ∃ x, groups[id.index]? = some x ∧
      x.parent = g.parent ∧ x.context = g.context := by
    intro id g hg
    rw [hgroups, hg]
    exact ⟨_, rfl, rfl, rfl⟩
  have hgrows : t.Grows { t with scripts := t.scripts ++ [s], groups } :=
    grows_addScript fun id g hg => (hkept id g hg).imp fun _ hx => hx.1
  exact {
    global := h.global
    globalGroup := by
      obtain ⟨f, hf, hroot, hscope⟩ := h.globalGroup
      obtain ⟨x, hx, hparent, hcontext⟩ := hkept _ f hf
      exact ⟨x, hx, hparent.trans hroot, hcontext.trans hscope⟩
    contexts := fun id c hc => (h.contexts id c hc).mono hgrows
    scripts := fun id x hx g hg => by
      have hgroup : ∃ y, t.group? g = some y := by
        rcases getElem?_concat_eq_some_iff.1 hx with hx | ⟨-, rfl⟩
        · exact h.scripts id x hx g hg
        · exact hs g hg
      obtain ⟨y, hy⟩ := hgroup
      exact hgrows.groups g y hy
    groups := fun id x hx => by
      rw [group?, hgroups] at hx
      obtain ⟨y, hy, rfl⟩ := Option.map_eq_some_iff.1 hx
      have hplaced := (h.groups id y hy).mono hgrows
      exact ⟨hplaced.scope, hplaced.parent, hplaced.nested⟩
    members := fun id x hx => by
      rw [group?, hgroups] at hx
      obtain ⟨y, hy, rfl⟩ := Option.map_eq_some_iff.1 hx
      exact hasScript_addScript rfl (h.members id y hy) }

/-- Every change keeps a tree coherent. -/
theorem change (h : t.Coherent) (hchange : t.Change t') : t'.Coherent := by
  cases hchange with
  | @context parent hparent =>
    refine h.push ⟨fun p hp => ?_, nofun, nofun⟩
    cases hp
    exact hparent
  | @scriptContext parent script s hparent hs =>
    refine h.push ⟨fun p hp => ?_, fun i hi => ?_, h.scripts script s hs⟩
    · cases hp
      exact hparent
    · cases hi
      exact ⟨s, hs, rfl⟩
  | detached => exact h.push ⟨nofun, nofun, nofun⟩
  | group hg => exact h.addGroup hg
  | @script name directory lines =>
    refine h.addScript (s := { name, directory, lines, group := none }) nofun fun id => ?_
    exact Option.map_id'.symm
  | @member name directory lines group g hg =>
    refine h.addScript (s := { name, directory, lines, group := some group })
      (fun p hp => ?_) fun id => ?_
    · cases hp
      exact ⟨g, hg⟩
    · refine (group?_enroll t ⟨t.scripts.length⟩ group id).trans ?_
      simp only [Option.some.injEq]
  | reparent hne _ hparent =>
    exact h.modify (fun _ => .inr ⟨hne, hparent⟩) (fun _ => rfl) fun _ => rfl
  | bind _ => exact h.modify (fun _ => .inl rfl) (fun _ => rfl) fun _ => rfl
  | unbind _ => exact h.modify (fun _ => .inl rfl) (fun _ => rfl) fun _ => rfl

theorem changes (h : t.Coherent) (hchanges : t.Changes t') : t'.Coherent := by
  induction hchanges with
  | refl => exact h
  | tail _ hlast ih => exact ih.change hlast

/-- A script is a member of one group at most. -/
theorem group_unique (h : t.Coherent) {s : ScriptId} {i j : GroupId} {g f : Group}
    (hg : t.group? i = some g) (hf : t.group? j = some f) (hsg : g.hasScript s = true)
    (hsf : f.hasScript s = true) : i = j := by
  obtain ⟨x, hx, hi⟩ := (h.members i g hg s).1 hsg
  obtain ⟨y, hy, hj⟩ := (h.members j f hf s).1 hsf
  rw [hx] at hy
  cases hy
  rw [hi] at hj
  exact Option.some.inj hj

end Coherent

/-- Whatever operations are carried out on the new tree, with whatever arguments, and whether or not
they succeed: what contexts, scripts and groups say of each other fits together afterwards, and no
script is a member of two groups. -/
theorem after_coherent (ops : List Audit.Operation) :
    (Audit.World.after {} ops).tree.Coherent ∧
      ∀ s i j g f, (Audit.World.after {} ops).tree.group? i = some g →
        (Audit.World.after {} ops).tree.group? j = some f →
        g.hasScript s = true → f.hasScript s = true → i = j := by
  have hcoherent := coherent_new.changes (Audit.World.wellFormed_new.changes_after ops)
  exact ⟨hcoherent, fun _ _ _ _ _ hg hf => hcoherent.group_unique hg hf⟩

end Tree

end Offside.Scope
