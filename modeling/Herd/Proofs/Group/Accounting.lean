import Herd.Hive.Materialize
import Herd.Proofs.Group.Turn
import Herd.Proofs.World.Population

/-!
# Accounting for the members of a group

How often a report names an entity. Recovery and speed name each entity they address
once. So does a group assignment, but for one case (`not_members_mentioned_once`): the
skin is a write of its own, and a member whose mesh refuses it is named for that and
then for what becomes of its behavior. `members_accounted_for` counts for all three.
-/

namespace Herd

open EntityStore SteadyStore

namespace Tally

variable {e : EntityId} {a b t : Tally}

/-- How often a tally names an entity. -/
def mentions (e : EntityId) (t : Tally) : Nat :=
  t.affected.countP (· = e) + t.skipped.countP (·.1 = e) + t.failures.countP (·.1 = e)

@[simp] theorem mentions_empty (e : EntityId) : mentions e ∅ = 0 := rfl

@[simp] theorem mentions_affect (e : EntityId) : (affect e).mentions e = 1 := by
  simp [mentions, affect]

@[simp] theorem mentions_skip (e : EntityId) (reason : SkipReason) :
    (skip e reason).mentions e = 1 := by
  simp [mentions, skip]

@[simp] theorem mentions_fail (e : EntityId) (fault : Fault) : (fail e fault).mentions e = 1 := by
  simp [mentions, fail]

/-- Mentions in a row add up. -/
theorem mentions_append (e : EntityId) (a b : Tally) :
    (a ++ b).mentions e = a.mentions e + b.mentions e := by
  have haffected : (a ++ b).affected = a.affected ++ b.affected := rfl
  have hskipped : (a ++ b).skipped = a.skipped ++ b.skipped := rfl
  have hfailures : (a ++ b).failures = a.failures ++ b.failures := rfl
  rw [mentions, haffected, hskipped, hfailures, List.countP_append, List.countP_append,
    List.countP_append, mentions, mentions]
  omega

/-- The failures of an entity are those in the entries about it. -/
theorem countP_failures_about (e : EntityId) (t : Tally) :
    (t.about e).failures.countP (·.1 = e) = t.failures.countP (·.1 = e) := by
  rw [about, List.countP_filter]
  simp only [Bool.and_self]

/-- What a tally says about an entity mentions it as often as the whole. -/
theorem mentions_about (e : EntityId) (t : Tally) : (t.about e).mentions e = t.mentions e := by
  rw [mentions, countP_failures_about, mentions, about, List.countP_filter, List.countP_filter]
  simp only [Bool.and_self]

end Tally

variable {σ : Type} [EntityStore σ] {e : EntityId} {s : σ}

/-- A switch mentions the member once, however it ends. -/
theorem mentions_switchBehavior (b : Behavior) (tag : GroupTag) :
    (switchBehavior b tag e s).1.mentions e = 1 := by
  unfold switchBehavior
  split
  · exact Tally.mentions_fail e _
  · split
    · exact Tally.mentions_fail e _
    · exact Tally.mentions_affect e

theorem Recovery.mentions_turn (clear : Bool) {tag : GroupTag}
    (htag : get? e .groupTag s = some tag) : (turn clear e s).1.mentions e = 1 := by
  rcases turn_cases (σ := σ) clear e tag with
    ⟨-, h⟩ | ⟨fault, h⟩ | ⟨tree, snapshot, run, -, -, -, h⟩
  · rw [h s htag, Tally.mentions_skip]
  · rw [h s htag, Tally.mentions_fail]
  · rw [h s htag, mentions_switchBehavior]

/-- A turn of a broadcast mentions a member once, also one that does not move. -/
theorem Speed.mentions_turn (multiplier : Float32) :
    (turn multiplier e s).1.mentions e = 1 := by
  unfold turn saveComponent
  split
  · exact Tally.mentions_skip e _
  · split
    · exact Tally.mentions_affect e
    · exact Tally.mentions_fail e _

/-- A turn of an assignment mentions the member once, and once more if its skin is refused. -/
theorem Assignment.mentions_turn (policy : BackupPolicy) (tree : BehaviorTree) (skin : Option Skin)
    {tag : GroupTag} (htag : get? e .groupTag s = some tag) :
    (turn policy tree skin e s).1.mentions e = (applySkin skin e s).1.mentions e + 1 := by
  rw [turn_of_tag policy tree skin htag, Tally.mentions_append, assignTree, mentions_switchBehavior]

/-! ## Reports -/

namespace Coordinator

variable {c : Coordinator Population} {label treeName : String} {skinName : Option String}

/-- A skin is named that resolves, and the entity has a mesh for it but may not be written. -/
def refusesSkin (c : Coordinator Population) (skinName : Option String) (e : EntityId) : Bool :=
  (skinName.bind c.library.skin?).isSome &&
    (get? e .skeletalMesh c.store : Option SkeletalMesh).isSome && decide (e ∈ c.store.readOnly)

/-- A skin is mentioned only where there is a mesh to put it on and the write is refused. -/
theorem mentions_applySkin (c : Coordinator Population) (skinName : Option String) (e : EntityId) :
    (Assignment.applySkin (skinName.bind c.library.skin?) e c.store).1.mentions e =
      if c.refusesSkin skinName e then 1 else 0 := by
  unfold refusesSkin
  cases hskin : skinName.bind c.library.skin? with
  | none => rw [Assignment.applySkin_of_none (.inl rfl)]; rfl
  | some look =>
    cases hmesh : (get? e .skeletalMesh c.store : Option SkeletalMesh) with
    | none => rw [Assignment.applySkin_of_none (.inr hmesh)]; rfl
    | some mesh =>
      rw [Assignment.applySkin_of_some look hmesh]
      by_cases hmark : e ∈ c.store.readOnly
      · have h := Population.refusal_of_mem_readOnly hmark .skeletalMesh
        rw [saveComponent_of_refused _ _ h, Tally.mentions_fail]
        simp [hmark]
      · have h := Population.refusal_of_not_mem_readOnly hmesh hmark .skeletalMesh
        obtain ⟨s', hs, -⟩ := saveComponent_of_admitted ∅ (⟨some look⟩ : SkeletalMesh) h
        rw [hs, Tally.mentions_empty]
        simp [hmark]

/-- An assignment that is not aborted has a tree. -/
theorem tree_of_not_aborted (h : (c.assignBehavior label treeName skinName).1.aborted = none) :
    ∃ tree, c.library.tree treeName = .ok tree := by
  unfold assignBehavior at h
  cases htree : c.library.tree treeName with
  | error fault =>
    rw [htree] at h
    cases h
  | ok tree => exact ⟨tree, rfl⟩

/-- A group assignment names each member once, and a member that refuses its skin twice. -/
theorem mentions_assignBehavior (h : (c.assignBehavior label treeName skinName).1.aborted = none)
    (e : EntityId) :
    (c.assignBehavior label treeName skinName).1.mentions e =
      if e ∈ c.members label then if c.refusesSkin skinName e then 2 else 1 else 0 := by
  obtain ⟨tree, htree⟩ := tree_of_not_aborted h
  rw [← Tally.mentions_about]
  by_cases he : e ∈ c.members label
  · obtain ⟨tag, htag, -⟩ := tag_of_mem_membersOf he
    rw [(c.assignBehavior_of_mem skinName htree he).1, if_pos he,
      Assignment.mentions_turn _ tree _ htag, mentions_applySkin]
    split <;> rfl
  · rw [(c.assignBehavior_of_not_mem treeName skinName he).1, if_neg he, Tally.mentions_empty]

/-- A member that refuses its skin fails twice: once for that, and once for the behavior. -/
theorem failures_assignBehavior (h : (c.assignBehavior label treeName skinName).1.aborted = none)
    {e : EntityId} (he : e ∈ c.members label) (hskin : c.refusesSkin skinName e = true) :
    (c.assignBehavior label treeName skinName).1.failures.countP (·.1 = e) = 2 := by
  obtain ⟨tree, htree⟩ := tree_of_not_aborted h
  obtain ⟨tag, htag, -⟩ := tag_of_mem_membersOf he
  simp only [refusesSkin, Bool.and_eq_true, decide_eq_true_eq, Option.isSome_iff_exists] at hskin
  obtain ⟨⟨⟨look, hlook⟩, mesh, hmesh⟩, hmark⟩ := hskin
  have hrefused := Population.refusal_of_mem_readOnly hmark
  rw [← Tally.countP_failures_about, (c.assignBehavior_of_mem skinName htree he).1,
    Assignment.turn_of_tag _ tree _ htag, hlook, Assignment.applySkin_of_some look hmesh,
    saveComponent_of_refused _ _ (hrefused _), Assignment.assignTree,
    switchBehavior_of_refused _ _ (hrefused _)]
  show [(e, _), (e, _)].countP _ = 2
  simp

/-- Recovery names each member once. -/
theorem mentions_recoverBackup (c : Coordinator Population) (label : String) (e : EntityId) :
    (c.recoverBackup label).1.mentions e = if e ∈ c.members label then 1 else 0 := by
  rw [← Tally.mentions_about]
  by_cases he : e ∈ c.members label
  · obtain ⟨tag, htag, -⟩ := tag_of_mem_membersOf he
    rw [(c.recoverBackup_of_mem he).1, if_pos he, Recovery.mentions_turn _ htag]
  · rw [(c.recoverBackup_of_not_mem he).1, if_neg he, Tally.mentions_empty]

/-- A speed names each member of the hivemind once. -/
theorem mentions_propagateSpeed {entity : EntityId} {multiplier : Float32}
    (h : (c.propagateSpeed entity multiplier).1.aborted = none) :
    ∃ hive, c.hivemind? entity = some hive ∧ ∀ e,
      (c.propagateSpeed entity multiplier).1.mentions e = if e ∈ hive.members then 1 else 0 := by
  cases hhive : c.hivemind? entity with
  | none =>
    unfold propagateSpeed at h
    rw [hhive] at h
    cases h
  | some hive =>
    refine ⟨hive, rfl, fun e => ?_⟩
    rw [← Tally.mentions_about]
    by_cases he : e ∈ hive.members
    · rw [(c.propagateSpeed_of_mem multiplier hhive he).1, if_pos he, Speed.mentions_turn]
    · rw [(c.propagateSpeed_of_not_mem multiplier hhive he).1, if_neg he, Tally.mentions_empty]

/-- One deer with a mesh, alone in its herd and marked read-only or not. -/
def loneDeer (mark : Bool) : Coordinator Population where
  store :=
    let deer := { EntityRecord.ofName "deer" with
      groupTag := some (.ofLabel "herd"), skeletalMesh := some ⟨none⟩ }
    (Population.empty.spawn deer).2.setReadOnly ⟨1⟩ mark
  library :=
    (Library.empty.addTree ⟨⟨none, "critter"⟩, .leaf (.action "walk")⟩).addSkin ⟨none, "dots"⟩
  settings := .standard
  registry := .empty
  recordCount := 0

/-- Not every member is named once: a deer that may not be written fails for its skin, and again
for its behavior. -/
theorem not_members_mentioned_once :
    ¬ ∀ (c : Coordinator Population) (label treeName : String) (skinName : Option String),
      (c.assignBehavior label treeName skinName).1.aborted = none →
        ∀ e ∈ c.members label, (c.assignBehavior label treeName skinName).1.mentions e = 1 := by
  intro h
  have hone := h (loneDeer true) "herd" "critter" (some "dots") (by decide) ⟨1⟩ (by decide)
  exact absurd hone (by decide)

/-- **Reports account for the members**: recovery and speed name each entity they address once,
and so does a group assignment, except that a member refusing its skin is there as two failures. No
other entity is named. -/
theorem members_accounted_for (c : Coordinator Population) :
    (∀ label treeName skinName, (c.assignBehavior label treeName skinName).1.aborted = none →
      ∀ e, ((c.assignBehavior label treeName skinName).1.mentions e =
          if e ∈ c.members label then if c.refusesSkin skinName e then 2 else 1 else 0) ∧
        (e ∈ c.members label → c.refusesSkin skinName e = true →
          (c.assignBehavior label treeName skinName).1.failures.countP (·.1 = e) = 2)) ∧
    (∀ label, (c.recoverBackup label).1.aborted = none →
      ∀ e, (c.recoverBackup label).1.mentions e = if e ∈ c.members label then 1 else 0) ∧
    (∀ entity multiplier, (c.propagateSpeed entity multiplier).1.aborted = none →
      ∃ hive, c.hivemind? entity = some hive ∧ ∀ e,
        (c.propagateSpeed entity multiplier).1.mentions e = if e ∈ hive.members then 1 else 0) := by
  refine ⟨fun label treeName skinName h e => ⟨mentions_assignBehavior h e, ?_⟩, ?_, ?_⟩
  · exact fun he hskin => failures_assignBehavior h he hskin
  · exact fun label _ e => mentions_recoverBackup c label e
  · exact fun entity multiplier h => mentions_propagateSpeed h

/-- A deer that may be written is named once by each, by speed as the member of a hivemind. -/
theorem loneDeer_accounted_for :
    ((loneDeer false).assignBehavior "herd" "critter" (some "dots")).1.mentions ⟨1⟩ = 1 ∧
    ((loneDeer false).recoverBackup "herd").1.mentions ⟨1⟩ = 1 ∧
    (((loneDeer false).materializeHivemind "herd").2.propagateSpeed ⟨2⟩ 2.5).1.mentions ⟨1⟩ =
      1 := by
  have hmember : (⟨1⟩ : EntityId) ∈ (loneDeer false).members "herd" := by decide
  have hskin : ¬ (loneDeer false).refusesSkin (some "dots") ⟨1⟩ = true := by decide
  obtain ⟨hassign, hrecover, -⟩ := members_accounted_for (loneDeer false)
  obtain ⟨-, -, hspeed⟩ := members_accounted_for ((loneDeer false).materializeHivemind "herd").2
  refine ⟨?_, ?_, ?_⟩
  · rw [(hassign "herd" "critter" (some "dots") (by decide) ⟨1⟩).1, if_pos hmember, if_neg hskin]
  · rw [hrecover "herd" rfl ⟨1⟩, if_pos hmember]
  · obtain ⟨hive, hhive, hnamed⟩ := hspeed ⟨2⟩ 2.5 (by decide)
    have hive_eq : hive = ⟨"herd", [⟨1⟩], by decide⟩ := (Option.some.inj (by rw [← hhive]; rfl))
    rw [hnamed, hive_eq]
    decide

end Coordinator

end Herd
