import Herd.Proofs.Group.Footprint
import Herd.Proofs.Group.Turn

/-!
# What becomes of behaviors and tags

The `standing` of an entity is what it runs and what its tag says. A group assignment
or a recovery leaves it as it was or changes both parts at once, and then the entity is
affected (`Coordinator.standing_assignBehavior`, `Coordinator.standing_recoverBackup`).
A tick changes what is run and nothing else (`standing_tickBehavior`).
-/

namespace Herd

open EntityStore SteadyStore

universe u

/-- What an entity runs, and its tag. -/
def standing {σ : Type} [EntityStore σ] (e : EntityId) (s : σ) :
    Option Behavior × Option GroupTag :=
  (get? e .behavior s, get? e .groupTag s)

variable {σ : Type} [EntityStore σ] [SteadyStore σ] {e : EntityId} {s t : σ}

/-- Stores that agree at an entity agree on what it stands with. -/
theorem AgreeAt.standing_eq (h : AgreeAt e s t) : standing e s = standing e t :=
  Prod.ext (h.components .behavior) (h.components .groupTag)

/-- The kinds of components that make up a standing. -/
def ComponentKind.isStanding : ComponentKind → Bool
  | .behavior | .groupTag => true
  | _ => false

/-- A write to another kind of component leaves every standing as it was. -/
theorem Writes.standing_eq {owner : EntityId} {kind : ComponentKind} {x : Option kind.Payload}
    (h : Writes refusal owner kind x s t) (hkind : kind.isStanding = false) (e : EntityId) :
    standing e t = standing e s := by
  have hother : ∀ kind' : ComponentKind, kind'.isStanding = true → kind' ≠ kind := by
    rintro kind' hkind' rfl
    rw [hkind] at hkind'
    cases hkind'
  by_cases he : e = owner
  · subst he
    exact Prod.ext (h.kinds .behavior (hother _ rfl)) (h.kinds .groupTag (hother _ rfl))
  · exact Prod.ext (h.others e he .behavior) (h.others e he .groupTag)

/-- A save of another kind leaves what every entity stands with. -/
theorem standing_save (owner : EntityId) (kind : ComponentKind) (x : kind.Payload)
    (hkind : kind.isStanding = false) (e : EntityId) (s : σ) :
    standing e (save owner kind x s).2 = standing e s := by
  cases h : refusal owner kind s with
  | some fault => rw [save_refused x h]
  | none =>
    obtain ⟨s', hs, hw⟩ := save_admitted x h
    rw [hs]
    exact hw.standing_eq hkind e

theorem standing_remove (owner : EntityId) (kind : ComponentKind)
    (hkind : kind.isStanding = false) (e : EntityId) (s : σ) :
    standing e (remove owner kind s).2 = standing e s := by
  cases h : refusal owner kind s with
  | some fault => rw [remove_refused h]
  | none =>
    obtain ⟨s', hs, hw⟩ := remove_admitted h
    rw [hs]
    exact hw.standing_eq hkind e

/-- Writes to other kinds of components leave every standing as it was. -/
theorem Written.standing_eq {allowed : EntityId → ComponentKind → Prop} (h : Written allowed s t)
    (hallowed : ∀ {e kind}, allowed e kind → kind.isStanding = false) (e : EntityId) :
    standing e t = standing e s := by
  induction h with
  | refl => rfl
  | save _ hplace x ih => exact (standing_save _ _ x (hallowed hplace) e _).trans ih
  | remove _ hplace ih => exact (standing_remove _ _ (hallowed hplace) e _).trans ih

/-! ## Turns -/

/-- What a tally says about an entity tells whether it is affected. -/
theorem Tally.mem_affected_about {t : Tally} : e ∈ (t.about e).affected ↔ e ∈ t.affected := by
  show e ∈ t.affected.filter (· = e) ↔ e ∈ t.affected
  rw [List.mem_filter]
  exact and_iff_left (decide_eq_true rfl)

namespace Assignment

variable {skin : Option Skin}

/-- A skin affects nobody, and leaves every standing as it was. -/
theorem standing_applySkin (skin : Option Skin) (e : EntityId) (s : σ) :
    (applySkin skin e s).1.affected = [] ∧ standing e (applySkin skin e s).2 = standing e s := by
  refine ⟨?_, ?_⟩
  · unfold applySkin saveComponent
    split
    · split <;> rfl
    · rfl
  · have hwritten : Written (fun _ kind => kind = .skeletalMesh) s (applySkin skin e s).2 :=
      applySkin_written rfl skin s
    exact hwritten.standing_eq (fun hkind => hkind ▸ rfl) e

/-- The turn of a member leaves its standing as it was, or the member is affected and has its new
run and tag. -/
theorem standing_turn (policy : BackupPolicy) (tree : BehaviorTree) (skin : Option Skin)
    {tag : GroupTag} (htag : get? e .groupTag s = some tag) :
    (e ∉ (turn policy tree skin e s).1.affected ∧
      standing e (turn policy tree skin e s).2 = standing e s) ∨
    (e ∈ (turn policy tree skin e s).1.affected ∧
      standing e (turn policy tree skin e s).2 =
        (some (.start e tree), some (assignedTag policy tag (get? e .behavior s)))) := by
  obtain ⟨hnobody, hskin⟩ := standing_applySkin skin e s
  have hprevious : get? e .behavior (applySkin skin e s).2 = get? e .behavior s :=
    congrArg Prod.fst hskin
  rw [turn_of_tag policy tree skin htag, assignTree, hprevious]
  have haffected : ∀ t : Tally, e ∈ ((applySkin skin e s).1 ++ t).affected ↔ e ∈ t.affected := by
    intro t
    show e ∈ (applySkin skin e s).1.affected ++ t.affected ↔ e ∈ t.affected
    rw [hnobody, List.nil_append]
  rw [haffected]
  rcases switchBehavior_cases (.start e tree) (assignedTag policy tag (get? e .behavior s)) e
    (applySkin skin e s).2 with ⟨hno, hsame⟩ | ⟨hyes, hb, htag', -⟩
  · exact .inl ⟨hno, hsame.standing_eq.symm.trans hskin⟩
  · exact .inr ⟨hyes, Prod.ext hb htag'⟩

end Assignment

/-- The turn of a member leaves its standing as it was, or the member is affected and back on its
backup. -/
theorem Recovery.standing_turn (clear : Bool) {tag : GroupTag}
    (htag : get? e .groupTag s = some tag) :
    (e ∉ (turn clear e s).1.affected ∧ standing e (turn clear e s).2 = standing e s) ∨
    ∃ tree snapshot run, tag.backupTree = some tree ∧ tag.backupState = some snapshot ∧
      Run.resume tree snapshot = .ok run ∧ e ∈ (turn clear e s).1.affected ∧
      standing e (turn clear e s).2 = (some ⟨tree, run⟩, some (restoredTag clear tag)) := by
  rcases turn_cases (σ := σ) clear e tag with
    ⟨-, h⟩ | ⟨fault, h⟩ | ⟨tree, snapshot, run, htree, hsnapshot, hrun, h⟩
  · rw [h s htag]
    exact .inl ⟨List.not_mem_nil, rfl⟩
  · rw [h s htag]
    exact .inl ⟨List.not_mem_nil, rfl⟩
  · rw [h s htag]
    rcases switchBehavior_cases ⟨tree, run⟩ (restoredTag clear tag) e s with
      ⟨hno, hsame⟩ | ⟨hyes, hb, htag', -⟩
    · exact .inl ⟨hno, hsame.standing_eq.symm⟩
    · exact .inr ⟨tree, snapshot, run, htree, hsnapshot, hrun, hyes, Prod.ext hb htag'⟩

/-! ## Operations -/

namespace Coordinator

/-- What an entity runs. -/
def runs? (c : Coordinator σ) (e : EntityId) : Option Behavior := get? e .behavior c.store

/-- The tag of an entity. -/
def tag? (c : Coordinator σ) (e : EntityId) : Option GroupTag := get? e .groupTag c.store

variable (c : Coordinator σ)

omit [SteadyStore σ] in
theorem exists_tag_of_mem_members {label : String} (h : e ∈ c.members label) :
    ∃ tag, c.tag? e = some tag := by
  obtain ⟨tag, htag, -⟩ := tag_of_mem_membersOf h
  exact ⟨tag, htag⟩

/-- A group assignment leaves a standing as it was, or affects the entity and gives it its own run
of the tree. -/
theorem standing_assignBehavior (label treeName : String) (skinName : Option String)
    (e : EntityId) :
    (e ∉ (c.assignBehavior label treeName skinName).1.affected ∧
      standing e (c.assignBehavior label treeName skinName).2.store = standing e c.store) ∨
    ∃ tree tag, c.library.tree treeName = .ok tree ∧ c.tag? e = some tag ∧
      e ∈ (c.assignBehavior label treeName skinName).1.affected ∧
      standing e (c.assignBehavior label treeName skinName).2.store =
        (some (.start e tree),
          some (Assignment.assignedTag c.settings.backupPolicy tag (c.runs? e))) := by
  rw [← Tally.mem_affected_about]
  by_cases he : e ∈ c.members label
  · obtain ⟨tag, htag⟩ := c.exists_tag_of_mem_members he
    cases htree : c.library.tree treeName with
    | error fault =>
      unfold assignBehavior
      rw [htree]
      exact .inl ⟨List.not_mem_nil, rfl⟩
    | ok tree =>
      obtain ⟨habout, hagree⟩ := c.assignBehavior_of_mem skinName htree he
      rw [habout, ← hagree.standing_eq]
      rcases Assignment.standing_turn c.settings.backupPolicy tree (skinName.bind c.library.skin?)
        htag with h | h
      · exact .inl h
      · exact .inr ⟨tree, tag, rfl, htag, h⟩
  · obtain ⟨habout, hagree⟩ := c.assignBehavior_of_not_mem treeName skinName he
    rw [habout, ← hagree.standing_eq]
    exact .inl ⟨List.not_mem_nil, rfl⟩

/-- A recovery leaves a standing as it was, or affects the entity and puts it back on its
backup. -/
theorem standing_recoverBackup (label : String) (e : EntityId) :
    (e ∉ (c.recoverBackup label).1.affected ∧
      standing e (c.recoverBackup label).2.store = standing e c.store) ∨
    ∃ tag tree snapshot run, c.tag? e = some tag ∧ tag.backupTree = some tree ∧
      tag.backupState = some snapshot ∧ Run.resume tree snapshot = .ok run ∧
      e ∈ (c.recoverBackup label).1.affected ∧
      standing e (c.recoverBackup label).2.store =
        (some ⟨tree, run⟩, some (Recovery.restoredTag c.settings.clearBackupOnRestore tag)) := by
  rw [← Tally.mem_affected_about]
  by_cases he : e ∈ c.members label
  · obtain ⟨tag, htag⟩ := c.exists_tag_of_mem_members he
    obtain ⟨habout, hagree⟩ := c.recoverBackup_of_mem he
    rw [habout, ← hagree.standing_eq]
    rcases Recovery.standing_turn c.settings.clearBackupOnRestore htag with
      h | ⟨tree, snapshot, run, htree, hsnapshot, hrun, h⟩
    · exact .inl h
    · exact .inr ⟨tag, tree, snapshot, run, htag, htree, hsnapshot, hrun, h⟩
  · obtain ⟨habout, hagree⟩ := c.recoverBackup_of_not_mem he
    rw [habout, ← hagree.standing_eq]
    exact .inl ⟨List.not_mem_nil, rfl⟩

end Coordinator

/-! ## Ticks -/

/-- A tick leaves a standing as it was, or brings the run of the entity on over the same tree. -/
theorem standing_tickBehavior {α : Type u} (h : ActionHandler α) (entity : EntityId) (x : α) (s : σ)
    (e : EntityId) :
    standing e (tickBehavior h entity x s).2.2 = standing e s ∨
    ∃ b run, get? e .behavior s = some b ∧ run.tree = b.run.tree ∧
      standing e (tickBehavior h entity x s).2.2 = (some ⟨b.tree, run⟩, get? e .groupTag s) := by
  unfold tickBehavior
  split
  · exact .inl rfl
  · next b hb =>
    have htree := b.run.tree_tick h x
    split
    next status run x' hrun =>
    rw [hrun] at htree
    cases hrefusal : refusal entity .behavior s with
    | some fault =>
      rw [save_refused _ hrefusal]
      exact .inl rfl
    | none =>
      obtain ⟨s', hs, hw⟩ := save_admitted (⟨b.tree, run⟩ : Behavior) hrefusal
      rw [hs]
      by_cases he : e = entity
      · subst he
        exact .inr ⟨b, run, hb, htree, Prod.ext hw.written (hw.kinds .groupTag (by decide))⟩
      · exact .inl (Prod.ext (hw.others e he .behavior) (hw.others e he .groupTag))

end Herd
