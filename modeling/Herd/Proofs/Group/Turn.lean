import Herd.Group.Assignment
import Herd.Group.Recovery
import Herd.Hive.Speed
import Herd.Proofs.Group.Pass

/-!
# What turns do

On a steady store the refusals are known before a turn, and with them what the turn
comes to. A change of behavior fails and leaves everything as it was unless behavior
and tag may both be written (`switchBehavior_of_refused`,
`switchBehavior_of_tag_refused`, `switchBehavior_of_admitted`); a skin is shown or its
refusal tallied, and the turn goes on.

Every turn is local to its entity (`Assignment.turn_local`, `Recovery.turn_local`,
`Speed.turn_local`), so an operation is to each entity what its turn is on the store
from before, and nothing to any other (`Coordinator.assignBehavior_of_mem`,
`Coordinator.assignBehavior_of_not_mem` and their likes).
-/

namespace Herd

open EntityStore SteadyStore

variable {σ : Type} [EntityStore σ] {e : EntityId} {s : σ}

/-! ## Turns by what the entity carries -/

namespace Assignment

/-- Without a skin, or without a mesh, there is nothing to show. -/
theorem applySkin_of_none {skin : Option Skin} (h : skin = none ∨ get? e .skeletalMesh s = none) :
    applySkin skin e s = (∅, s) := by
  unfold applySkin
  split
  · next look mesh hmesh =>
    rcases h with h | h
    · cases h
    · rw [h] at hmesh
      cases hmesh
  · rfl

theorem applySkin_of_some {mesh : SkeletalMesh} (look : Skin)
    (hmesh : get? e .skeletalMesh s = some mesh) :
    applySkin (some look) e s = saveComponent ∅ e .skeletalMesh ⟨some look⟩ s := by
  simp only [applySkin, hmesh]

/-- The turn of a member: its skin, then its tree. -/
theorem turn_of_tag (policy : BackupPolicy) (tree : BehaviorTree) (skin : Option Skin)
    {tag : GroupTag} (htag : get? e .groupTag s = some tag) :
    turn policy tree skin e s =
      ((applySkin skin e s).1 ++ (assignTree policy tree tag e (applySkin skin e s).2).1,
        (assignTree policy tree tag e (applySkin skin e s).2).2) := by
  simp only [turn, htag]

end Assignment

namespace Recovery

variable (clear : Bool) {tag : GroupTag}

theorem turn_of_no_backup (htag : get? e .groupTag s = some tag) (h : tag.hasBackup = false) :
    turn clear e s = (.skip e .missingPriorState, s) := by
  simp only [turn, htag]
  split
  · next tree snapshot htree hsnapshot =>
    rw [GroupTag.hasBackup, htree, hsnapshot] at h
    cases h
  · rfl

/-- A member whose backup does not fit its tree fails. -/
theorem turn_of_mismatch {tree : BehaviorTree} {snapshot : Snapshot} {fault : Fault}
    (htag : get? e .groupTag s = some tag) (htree : tag.backupTree = some tree)
    (hsnapshot : tag.backupState = some snapshot) (h : Run.resume tree snapshot = .error fault) :
    turn clear e s = (.fail e fault, s) := by
  simp only [turn, htag, htree, hsnapshot, h]

/-- A member whose backup fits is switched to it. -/
theorem turn_of_backup {tree : BehaviorTree} {snapshot : Snapshot} {run : Run}
    (htag : get? e .groupTag s = some tag) (htree : tag.backupTree = some tree)
    (hsnapshot : tag.backupState = some snapshot) (h : Run.resume tree snapshot = .ok run) :
    turn clear e s = switchBehavior ⟨tree, run⟩ (restoredTag clear tag) e s := by
  simp only [turn, htag, htree, hsnapshot, h]

/-- What the turn of a tagged entity comes to is settled by the tag. -/
theorem turn_cases (e : EntityId) (tag : GroupTag) :
    (tag.hasBackup = false ∧ ∀ s : σ, get? e .groupTag s = some tag →
      turn clear e s = (.skip e .missingPriorState, s)) ∨
    (∃ fault, ∀ s : σ, get? e .groupTag s = some tag → turn clear e s = (.fail e fault, s)) ∨
    ∃ tree snapshot run, tag.backupTree = some tree ∧ tag.backupState = some snapshot ∧
      Run.resume tree snapshot = .ok run ∧ ∀ s : σ, get? e .groupTag s = some tag →
        turn clear e s = switchBehavior ⟨tree, run⟩ (restoredTag clear tag) e s := by
  cases htree : tag.backupTree with
  | none =>
    have h : tag.hasBackup = false := by rw [GroupTag.hasBackup, htree]; rfl
    exact .inl ⟨h, fun s htag => turn_of_no_backup clear htag h⟩
  | some tree =>
    cases hsnapshot : tag.backupState with
    | none =>
      have h : tag.hasBackup = false := by rw [GroupTag.hasBackup, hsnapshot, htree]; rfl
      exact .inl ⟨h, fun s htag => turn_of_no_backup clear htag h⟩
    | some snapshot =>
      cases h : Run.resume tree snapshot with
      | error fault =>
        exact .inr (.inl ⟨fault, fun s htag => turn_of_mismatch clear htag htree hsnapshot h⟩)
      | ok run =>
        exact .inr (.inr ⟨tree, snapshot, run, rfl, rfl, h,
          fun s htag => turn_of_backup clear htag htree hsnapshot h⟩)

end Recovery

namespace Speed

variable (multiplier : Float32)

theorem turn_of_none (h : get? e .characterMovement s = none) :
    turn multiplier e s = (.skip e (.missingComponent .characterMovement), s) := by
  simp only [turn, h]

theorem turn_of_some {movement : CharacterMovement}
    (h : get? e .characterMovement s = some movement) :
    turn multiplier e s =
      saveComponent (.affect e) e .characterMovement ⟨multiplier⟩ s := by
  simp only [turn, h]

end Speed

variable [SteadyStore σ]

/-! ## Saves -/

section Save

variable {kind : ComponentKind} (saved : Tally) (x : kind.Payload)

/-- A save that is refused fails and changes nothing. -/
theorem saveComponent_of_refused {fault : StoreFault} (h : refusal e kind s = some fault) :
    saveComponent saved e kind x s = (.fail e fault.toFault, s) := by
  simp only [saveComponent, save_refused x h]

/-- A save that is admitted is tallied and writes its component. -/
theorem saveComponent_of_admitted (h : refusal e kind s = none) :
    ∃ s', saveComponent saved e kind x s = (saved, s') ∧ Writes refusal e kind (some x) s s' := by
  obtain ⟨s', hs, hw⟩ := save_admitted x h
  exact ⟨s', by simp only [saveComponent, hs], hw⟩

/-- A save concerns its entity only. -/
theorem saveComponent_local (hsaved : saved.about e = saved) :
    LocalAt e (saveComponent (σ := σ) saved e kind x) := by
  refine ⟨fun s => ?_, fun s => ?_, fun {s t} hst => ?_⟩
  · cases h : refusal e kind s with
    | some fault => rw [saveComponent_of_refused saved x h, Tally.about_fail]
    | none =>
      obtain ⟨s', hs, -⟩ := saveComponent_of_admitted saved x h
      rw [hs, hsaved]
  · cases h : refusal e kind s with
    | some fault =>
      rw [saveComponent_of_refused saved x h]
      exact Keeps.refl e s
    | none =>
      obtain ⟨s', hs, hw⟩ := saveComponent_of_admitted saved x h
      rw [hs]
      exact hw.keeps
  · have ht : refusal e kind t = refusal e kind s := (hst.refusals kind).symm
    cases h : refusal e kind s with
    | some fault =>
      rw [saveComponent_of_refused saved x h, saveComponent_of_refused saved x (ht.trans h)]
      exact ⟨rfl, hst⟩
    | none =>
      obtain ⟨s', hs, hw⟩ := saveComponent_of_admitted saved x h
      obtain ⟨t', ht, hv⟩ := saveComponent_of_admitted saved x (ht.trans h)
      rw [hs, ht]
      exact ⟨rfl, hst.write hw hv⟩

end Save

/-! ## Changes of behavior -/

/-- Where behaviors may be written, the previous one is put back. -/
theorem revertBehavior_writes (previous : Option Behavior) (h : refusal e .behavior s = none) :
    Writes refusal e .behavior previous s (revertBehavior e previous s) := by
  cases previous with
  | some b =>
    obtain ⟨s', hs, hw⟩ := save_admitted b h
    show Writes refusal e .behavior (some b) s (EntityStore.save e .behavior b s).2
    rw [hs]
    exact hw
  | none =>
    obtain ⟨s', hs, hw⟩ := remove_admitted h
    show Writes refusal e .behavior none s (EntityStore.remove e .behavior s).2
    rw [hs]
    exact hw

variable (b : Behavior) (tag : GroupTag)

theorem switchBehavior_of_refused {fault : StoreFault} (h : refusal e .behavior s = some fault) :
    switchBehavior b tag e s = (.fail e fault.toFault, s) := by
  simp only [switchBehavior, save_refused b h]

/-- When only the tag is refused, the behavior is put back. -/
theorem switchBehavior_of_tag_refused {fault : StoreFault} (hb : refusal e .behavior s = none)
    (htag : refusal e .groupTag s = some fault) :
    ∃ s', switchBehavior b tag e s = (.fail e fault.toFault, s') ∧ ∀ e', AgreeAt e' s s' := by
  obtain ⟨s₁, hsave, hw⟩ := save_admitted b hb
  have htag₁ : refusal e .groupTag s₁ = some fault := (hw.refusals e .groupTag).trans htag
  have hb₁ : refusal e .behavior s₁ = none := (hw.refusals e .behavior).trans hb
  -- the behavior was just admitted, so putting it back is admitted as well
  refine ⟨revertBehavior e (get? e .behavior s) s₁, ?_, ?_⟩
  · simp only [switchBehavior, hsave, save_refused tag htag₁]
  · exact hw.undo (revertBehavior_writes _ hb₁) rfl

/-- A switch that is admitted writes the behavior, then the tag. -/
theorem switchBehavior_of_admitted (hb : refusal e .behavior s = none)
    (htag : refusal e .groupTag s = none) :
    ∃ s₁ s₂, switchBehavior b tag e s = (.affect e, s₂) ∧
      Writes refusal e .behavior (some b) s s₁ ∧ Writes refusal e .groupTag (some tag) s₁ s₂ := by
  obtain ⟨s₁, hsave, hw⟩ := save_admitted b hb
  obtain ⟨s₂, hsave', hw'⟩ := save_admitted tag ((hw.refusals e .groupTag).trans htag)
  refine ⟨s₁, s₂, ?_, hw, hw'⟩
  simp only [switchBehavior, hsave, hsave']

/-- A change of behavior is made as a whole, or nothing has happened. -/
theorem switchBehavior_cases (b : Behavior) (tag : GroupTag) (e : EntityId) (s : σ) :
    (e ∉ (switchBehavior b tag e s).1.affected ∧ AgreeAt e s (switchBehavior b tag e s).2) ∨
    (e ∈ (switchBehavior b tag e s).1.affected ∧
      get? e .behavior (switchBehavior b tag e s).2 = some b ∧
      get? e .groupTag (switchBehavior b tag e s).2 = some tag ∧
      ∀ kind, kind ≠ .behavior → kind ≠ .groupTag →
        get? e kind (switchBehavior b tag e s).2 = get? e kind s) := by
  cases hb : refusal e .behavior s with
  | some fault =>
    rw [switchBehavior_of_refused b tag hb]
    exact .inl ⟨List.not_mem_nil, AgreeAt.refl e s⟩
  | none =>
    cases htag : refusal e .groupTag s with
    | some fault =>
      obtain ⟨s', hs, hsame⟩ := switchBehavior_of_tag_refused b tag hb htag
      rw [hs]
      exact .inl ⟨List.not_mem_nil, hsame e⟩
    | none =>
      obtain ⟨s₁, s₂, hs, hw, hw'⟩ := switchBehavior_of_admitted b tag hb htag
      rw [hs]
      refine .inr ⟨List.mem_singleton_self e, ?_, hw'.written, fun kind hkind hkind' => ?_⟩
      · exact (hw'.kinds .behavior (by decide)).trans hw.written
      · exact (hw'.kinds kind hkind').trans (hw.kinds kind hkind)

theorem switchBehavior_local (e : EntityId) : LocalAt e (switchBehavior (σ := σ) b tag e) := by
  refine ⟨fun s => ?_, fun s => ?_, fun {s t} hst => ?_⟩
  · cases hb : refusal e .behavior s with
    | some fault => rw [switchBehavior_of_refused b tag hb, Tally.about_fail]
    | none =>
      cases htag : refusal e .groupTag s with
      | some fault =>
        obtain ⟨s', hs, -⟩ := switchBehavior_of_tag_refused b tag hb htag
        rw [hs, Tally.about_fail]
      | none =>
        obtain ⟨s₁, s₂, hs, -⟩ := switchBehavior_of_admitted b tag hb htag
        rw [hs, Tally.about_affect]
  · cases hb : refusal e .behavior s with
    | some fault =>
      rw [switchBehavior_of_refused b tag hb]
      exact Keeps.refl e s
    | none =>
      cases htag : refusal e .groupTag s with
      | some fault =>
        obtain ⟨s', hs, hsame⟩ := switchBehavior_of_tag_refused b tag hb htag
        rw [hs]
        exact ⟨fun e' _ => hsame e', (hsame e).refusals⟩
      | none =>
        obtain ⟨s₁, s₂, hs, hw, hw'⟩ := switchBehavior_of_admitted b tag hb htag
        rw [hs]
        exact hw.keeps.trans hw'.keeps
  · have hbt : refusal e .behavior t = refusal e .behavior s := (hst.refusals .behavior).symm
    have htagt : refusal e .groupTag t = refusal e .groupTag s := (hst.refusals .groupTag).symm
    cases hb : refusal e .behavior s with
    | some fault =>
      rw [switchBehavior_of_refused b tag hb, switchBehavior_of_refused b tag (hbt.trans hb)]
      exact ⟨rfl, hst⟩
    | none =>
      cases htag : refusal e .groupTag s with
      | some fault =>
        obtain ⟨s', hs, hsame⟩ := switchBehavior_of_tag_refused b tag hb htag
        obtain ⟨t', ht, hsame'⟩ :=
          switchBehavior_of_tag_refused b tag (hbt.trans hb) (htagt.trans htag)
        rw [hs, ht]
        exact ⟨rfl, (hsame e).symm.trans (hst.trans (hsame' e))⟩
      | none =>
        obtain ⟨s₁, s₂, hs, hw, hw'⟩ := switchBehavior_of_admitted b tag hb htag
        obtain ⟨t₁, t₂, ht, hv, hv'⟩ :=
          switchBehavior_of_admitted b tag (hbt.trans hb) (htagt.trans htag)
        rw [hs, ht]
        exact ⟨rfl, (hst.write hw hv).write hw' hv'⟩

/-! ## Turns are local -/

namespace Assignment

/-- A skin concerns its entity only. -/
theorem applySkin_local (skin : Option Skin) (e : EntityId) :
    LocalAt e (applySkin (σ := σ) skin e) := by
  refine LocalAt.read .skeletalMesh fun mesh => ?_
  cases hskin : skin with
  | none => exact ⟨_, .const (Tally.about_empty e), fun s _ => applySkin_of_none (.inl rfl)⟩
  | some look =>
    cases mesh with
    | none => exact ⟨_, .const (Tally.about_empty e), fun s h => applySkin_of_none (.inr h)⟩
    | some mesh =>
      exact ⟨_, saveComponent_local ∅ _ (Tally.about_empty e), fun s h => applySkin_of_some look h⟩

theorem assignTree_local (policy : BackupPolicy) (tree : BehaviorTree) (tag : GroupTag)
    (e : EntityId) : LocalAt e (assignTree (σ := σ) policy tree tag e) := by
  refine LocalAt.read .behavior fun previous => ?_
  refine ⟨_, switchBehavior_local (.start e tree) (assignedTag policy tag previous) e, ?_⟩
  intro s h
  rw [assignTree, h]

theorem turn_local (policy : BackupPolicy) (tree : BehaviorTree) (skin : Option Skin)
    (e : EntityId) : LocalAt e (turn (σ := σ) policy tree skin e) := by
  refine LocalAt.read .groupTag fun tag => ?_
  cases tag with
  | none =>
    refine ⟨_, .const (Tally.about_empty e), fun s h => ?_⟩
    simp only [turn, h]
  | some tag =>
    exact ⟨_, (applySkin_local skin e).append (assignTree_local policy tree tag e),
      fun s h => turn_of_tag policy tree skin h⟩

end Assignment

theorem Recovery.turn_local (clear : Bool) (e : EntityId) :
    LocalAt e (turn (σ := σ) clear e) := by
  refine LocalAt.read .groupTag fun tag => ?_
  cases tag with
  | none =>
    refine ⟨_, .const (Tally.about_empty e), fun s h => ?_⟩
    simp only [turn, h]
  | some tag =>
    rcases turn_cases (σ := σ) clear e tag with
      ⟨-, h⟩ | ⟨fault, h⟩ | ⟨tree, snapshot, run, -, -, -, h⟩
    · exact ⟨_, .const (Tally.about_skip e _), h⟩
    · exact ⟨_, .const (Tally.about_fail e _), h⟩
    · exact ⟨_, switchBehavior_local ⟨tree, run⟩ _ e, h⟩

theorem Speed.turn_local (multiplier : Float32) (e : EntityId) :
    LocalAt e (turn (σ := σ) multiplier e) := by
  refine LocalAt.read .characterMovement fun movement => ?_
  cases movement with
  | none => exact ⟨_, .const (Tally.about_skip e _), fun s h => turn_of_none multiplier h⟩
  | some movement =>
    exact ⟨_, saveComponent_local _ _ (Tally.about_affect e), fun s h => turn_of_some multiplier h⟩

/-! ## Operations, entity by entity -/

namespace Coordinator

variable (c : Coordinator σ) {label treeName : String}

theorem nodup_members (label : String) : (c.members label).Nodup := nodup_membersOf label c.store

/-- With a tree that resolves, a group assignment is to each member what its turn is. -/
theorem assignBehavior_of_mem {tree : BehaviorTree} (skinName : Option String)
    (htree : c.library.tree treeName = .ok tree) (he : e ∈ c.members label) :
    (c.assignBehavior label treeName skinName).1.about e =
        (Assignment.turn c.settings.backupPolicy tree (skinName.bind c.library.skin?) e c.store).1 ∧
      AgreeAt e
        (Assignment.turn c.settings.backupPolicy tree (skinName.bind c.library.skin?) e c.store).2
        (c.assignBehavior label treeName skinName).2.store := by
  unfold assignBehavior
  rw [htree]
  exact Tally.pass_of_mem (Assignment.turn_local _ tree _) (c.nodup_members label) he c.store

/-- An assignment passes by who is no member. -/
theorem assignBehavior_of_not_mem (treeName : String) (skinName : Option String)
    (he : e ∉ c.members label) :
    (c.assignBehavior label treeName skinName).1.about e = ∅ ∧
      AgreeAt e c.store (c.assignBehavior label treeName skinName).2.store := by
  unfold assignBehavior
  cases htree : c.library.tree treeName with
  | error fault => exact ⟨rfl, AgreeAt.refl e c.store⟩
  | ok tree => exact Tally.pass_of_not_mem (Assignment.turn_local _ tree _) he c.store

/-- A recovery is to each member what its turn is. -/
theorem recoverBackup_of_mem (he : e ∈ c.members label) :
    (c.recoverBackup label).1.about e =
        (Recovery.turn c.settings.clearBackupOnRestore e c.store).1 ∧
      AgreeAt e (Recovery.turn c.settings.clearBackupOnRestore e c.store).2
        (c.recoverBackup label).2.store :=
  Tally.pass_of_mem (Recovery.turn_local _) (c.nodup_members label) he c.store

theorem recoverBackup_of_not_mem (he : e ∉ c.members label) :
    (c.recoverBackup label).1.about e = ∅ ∧ AgreeAt e c.store (c.recoverBackup label).2.store :=
  Tally.pass_of_not_mem (Recovery.turn_local _) he c.store

variable {entity : EntityId} {hive : Hivemind}

/-- Speed is to each member of the hivemind what its turn is. -/
theorem propagateSpeed_of_mem (multiplier : Float32) (hhive : c.hivemind? entity = some hive)
    (he : e ∈ hive.members) :
    (c.propagateSpeed entity multiplier).1.about e = (Speed.turn multiplier e c.store).1 ∧
      AgreeAt e (Speed.turn multiplier e c.store).2
        (c.propagateSpeed entity multiplier).2.store := by
  unfold propagateSpeed
  rw [hhive]
  exact Tally.pass_of_mem (Speed.turn_local multiplier) hive.distinct he c.store

theorem propagateSpeed_of_not_mem (multiplier : Float32) (hhive : c.hivemind? entity = some hive)
    (he : e ∉ hive.members) :
    (c.propagateSpeed entity multiplier).1.about e = ∅ ∧
      AgreeAt e c.store (c.propagateSpeed entity multiplier).2.store := by
  unfold propagateSpeed
  rw [hhive]
  exact Tally.pass_of_not_mem (Speed.turn_local multiplier) he c.store

end Coordinator

end Herd
