import Herd.Proofs.Group.Effect
import Herd.Proofs.Hive.Collective

/-!
# Reports that nobody is affected

What an operation does to an entity it reports: behavior and tag change together, for an entity that
is affected, and so do the movement of a member of a hivemind and the collective record. So where
nobody is affected, a recovery, a speed and a collective assignment have changed nothing.

A skin is the exception. It is shown before the tree is assigned and stays when the behavior or the
tag is then refused, and a member whose behavior or tag was refused is not affected. So a group
assignment that affects nobody has changed nothing but those meshes on which it showed its skin
(`Coordinator.changes_of_noop`), and there may be some (`Coordinator.not_unchanged_of_noop`).
-/

namespace Herd

open EntityStore SteadyStore

theorem Report.isNoop_iff {report : Report} : report.isNoop = true ↔ ∀ e, e ∉ report.affected := by
  rw [isNoop, List.isEmpty_iff, List.eq_nil_iff_forall_not_mem]

/-- Where the report of an operation from `c` says that nobody was affected, it is true: no
component has changed. It says so if the operation was aborted. -/
structure TruthfulNoop {σ : Type} [EntityStore σ] (c : Coordinator σ) (r : Report × Coordinator σ) :
    Prop where
  of_aborted : r.1.aborted ≠ none → r.1.isNoop = true
  same : r.1.isNoop = true → SameComponents c.store r.2.store

/-- A standing is behavior and tag. -/
theorem get?_of_standing {σ : Type} [EntityStore σ] {e : EntityId} {s t : σ} {kind : ComponentKind}
    (h : standing e t = standing e s) (hkind : kind.isStanding = true) :
    get? e kind t = get? e kind s := by
  cases kind with
  | behavior => exact congrArg Prod.fst h
  | groupTag => exact congrArg Prod.snd h
  | _ => cases hkind

section Steady

variable {σ : Type} [EntityStore σ] [SteadyStore σ] {e : EntityId} {s : σ}

/-- A member of a hivemind that is not affected is as it was. -/
theorem Speed.agreeAt_turn (multiplier : Float32) (h : e ∉ (turn multiplier e s).1.affected) :
    AgreeAt e s (turn multiplier e s).2 := by
  cases hmovement : (get? e .characterMovement s : Option CharacterMovement) with
  | none =>
    rw [turn_of_none multiplier hmovement]
    exact AgreeAt.refl e s
  | some movement =>
    rw [turn_of_some multiplier hmovement] at h ⊢
    cases hrefusal : refusal e .characterMovement s with
    | some fault =>
      rw [saveComponent_of_refused _ _ hrefusal]
      exact AgreeAt.refl e s
    | none =>
      obtain ⟨t, ht, -⟩ :=
        saveComponent_of_admitted (.affect e) (⟨multiplier⟩ : CharacterMovement) hrefusal
      rw [ht] at h
      exact absurd (List.mem_singleton_self e) h

namespace Coordinator

variable (c : Coordinator σ) {entity : EntityId}

/-- A broadcast changes nothing at an entity that it does not affect. -/
theorem agreeAt_propagateSpeed (multiplier : Float32)
    (h : e ∉ (c.propagateSpeed entity multiplier).1.affected) :
    AgreeAt e c.store (c.propagateSpeed entity multiplier).2.store := by
  cases hhive : c.hivemind? entity with
  | none =>
    simp only [propagateSpeed, hhive]
    exact AgreeAt.refl e c.store
  | some hive =>
    by_cases he : e ∈ hive.members
    · obtain ⟨habout, hafter⟩ := c.propagateSpeed_of_mem multiplier hhive he
      rw [← Tally.mem_affected_about, habout] at h
      exact (Speed.agreeAt_turn multiplier h).trans hafter
    · exact (c.propagateSpeed_of_not_mem multiplier hhive he).2

/-- A broadcast that affects nobody changes nothing. -/
theorem truthfulNoop_propagateSpeed (entity : EntityId) (multiplier : Float32) :
    TruthfulNoop c (c.propagateSpeed entity multiplier) := by
  refine ⟨?_, fun hnoop e kind => ?_⟩
  · unfold propagateSpeed
    split
    · exact fun _ => rfl
    · exact fun h => absurd rfl h
  · have hagree := c.agreeAt_propagateSpeed multiplier (Report.isNoop_iff.mp hnoop e)
    exact (hagree.components kind).symm

theorem truthfulNoop_recoverBackup [LawfulStore σ] (label : String) :
    TruthfulNoop c (c.recoverBackup label) := by
  refine ⟨fun h => absurd rfl h, fun hnoop e kind => ?_⟩
  by_cases hkind : kind.isStanding = true
  · exact get?_of_standing
      (c.standing_of_not_affected_recoverBackup (Report.isNoop_iff.mp hnoop e)) hkind
  · refine (c.recoverBackup_written label).get?_eq fun hplace => hkind ?_
    revert hplace
    cases kind <;> simp [Recovery.kinds, ComponentKind.isStanding]

end Coordinator

end Steady

namespace Coordinator

section Lawful

variable {σ : Type} [EntityStore σ] (c : Coordinator σ)

theorem isNoop_of_aborted_assignCollective (entity : EntityId) (treeName : String) :
    (c.assignCollective entity treeName).1.aborted ≠ none →
      (c.assignCollective entity treeName).1.isNoop = true := by
  unfold assignCollective
  split
  · exact fun _ => rfl
  · split
    · exact fun h => absurd rfl h
    · split
      · exact fun _ => rfl
      · simp only [freshRecord]
        split
        · exact fun h => absurd rfl h
        · split <;> exact fun h => absurd rfl h

/-- A call on a hivemind that affects nobody changes nothing. -/
theorem truthfulNoop_assignCollective [LawfulStore σ] (entity : EntityId) (treeName : String) :
    TruthfulNoop c (c.assignCollective entity treeName) := by
  refine ⟨c.isNoop_of_aborted_assignCollective entity treeName, fun hnoop => ?_⟩
  cases hhive : c.hivemind? entity with
  | none =>
    simp only [assignCollective, hhive]
    exact fun _ _ => rfl
  | some hive =>
    rcases assignCollective_cases hhive treeName with
      ⟨-, hsame⟩ | ⟨tree, record, -, hmembers, -, -, haffected, -⟩
    · exact hsame
    · exact absurd (haffected.symm.trans (List.isEmpty_iff.mp hnoop)) hmembers

end Lawful

variable (c : Coordinator (Gated Ban)) {label treeName : String} {skinName : Option String}

/-- The skin that a group assignment shows on the mesh of an entity, if it does: tree and skin
resolve, and the entity is a member with a mesh that may be written. -/
def shown? (label treeName : String) (skinName : Option String) (e : EntityId) : Option Skin :=
  if (c.library.tree? treeName).isSome && decide (e ∈ c.members label) && (c.mesh? e).isSome &&
      c.store.admits e .skeletalMesh then
    skinName.bind c.library.skin?
  else none

/-- After an assignment a mesh has the skin that was shown to it, or the material it had. -/
theorem mesh_of_shown (label treeName : String) (skinName : Option String) (e : EntityId) :
    (c.assignBehavior label treeName skinName).2.mesh? e =
      match c.shown? label treeName skinName e with
      | some look => some ⟨some look⟩
      | none => c.mesh? e := by
  by_cases he : e ∈ c.members label
  · cases htree : c.library.tree? treeName with
    | none => simp [shown?, assignBehavior, Library.tree, htree]
    | some tree =>
      have hok : c.library.tree treeName = .ok tree := by rw [Library.tree, htree]
      rw [c.mesh_assignBehavior skinName hok he]
      cases hmesh : c.mesh? e with
      | none => cases hskin : skinName.bind c.library.skin? <;>
          simp [shown?, Assignment.reskinned, hmesh]
      | some mesh =>
        -- an entity with a mesh is there, so its refusals are those of ban and mark
        simp only [Gated.refusal_eq_none_iff hmesh, shown?, htree, hmesh, he]
        cases skinName.bind c.library.skin? <;> cases c.store.admits e .skeletalMesh <;> rfl
  · have hsame := (c.assignBehavior_of_not_mem treeName skinName he).2.components .skeletalMesh
    have hnone : c.shown? label treeName skinName e = none := by simp [shown?, he]
    rw [hnone]
    exact hsame.symm

/-- A group assignment that affects nobody has changed meshes only. -/
theorem same_of_noop_assignBehavior
    (h : (c.assignBehavior label treeName skinName).1.isNoop = true) (e : EntityId)
    {kind : ComponentKind} (hkind : kind ≠ .skeletalMesh) :
    get? e kind (c.assignBehavior label treeName skinName).2.store = get? e kind c.store := by
  by_cases hstanding : kind.isStanding = true
  · exact get?_of_standing
      (c.standing_of_not_affected_assignBehavior (Report.isNoop_iff.mp h e)) hstanding
  · refine (c.assignBehavior_written label treeName skinName).get?_eq fun hplace => ?_
    obtain ⟨-, hwritten⟩ := hplace
    cases kind <;> simp_all [Assignment.kinds, ComponentKind.isStanding]

/-- **What has changed where nobody was affected.** Behind any ban: a recovery, a speed and a
collective assignment that report nobody affected have changed no component of any entity. A group
assignment that does has changed no component but meshes, and of these exactly those on which it
showed its skin before behavior or tag was refused; if it was aborted, none. -/
theorem changes_of_noop (c : Coordinator (Gated Ban)) :
    (∀ label, TruthfulNoop c (c.recoverBackup label)) ∧
    (∀ entity multiplier, TruthfulNoop c (c.propagateSpeed entity multiplier)) ∧
    (∀ entity treeName, TruthfulNoop c (c.assignCollective entity treeName)) ∧
    ∀ label treeName skinName,
      let report := (c.assignBehavior label treeName skinName).1
      let c' := (c.assignBehavior label treeName skinName).2
      (report.aborted ≠ none → report.isNoop = true ∧ SameComponents c.store c'.store) ∧
      (report.isNoop = true → ∀ e,
        (∀ kind, kind ≠ .skeletalMesh → get? e kind c'.store = get? e kind c.store) ∧
        c'.mesh? e = match c.shown? label treeName skinName e with
          | some look => some ⟨some look⟩
          | none => c.mesh? e) := by
  refine ⟨c.truthfulNoop_recoverBackup, c.truthfulNoop_propagateSpeed,
    c.truthfulNoop_assignCollective, fun label treeName skinName => ⟨?_, fun h e =>
    ⟨fun kind => c.same_of_noop_assignBehavior h e, c.mesh_of_shown label treeName skinName e⟩⟩⟩
  unfold assignBehavior
  split
  · exact fun _ => ⟨rfl, fun _ _ => rfl⟩
  · exact fun h => absurd rfl h

/-- A deer with a mesh, in a store that refuses every behavior. -/
def stubbornDeer : Coordinator (Gated Ban) where
  store :=
    let deer := { EntityRecord.ofName "deer" with
      groupTag := some (.ofLabel "herd"), skeletalMesh := some ⟨none⟩ }
    ⟨(Population.empty.spawn deer).2, ⟨fun _ kind => kind = .behavior⟩⟩
  library :=
    (Library.empty.addTree ⟨⟨none, "critter"⟩, .leaf (.action "walk")⟩).addSkin ⟨none, "dots"⟩
  settings := .standard
  registry := .empty
  recordCount := 0

/-- It is not affected, and it does not walk, but it wears the skin of those that do. -/
theorem stubbornDeer_reskinned :
    (stubbornDeer.assignBehavior "herd" "critter" (some "dots")).1.isNoop = true ∧
    (stubbornDeer.assignBehavior "herd" "critter" (some "dots")).2.runs? ⟨1⟩ = none ∧
    (stubbornDeer.assignBehavior "herd" "critter" (some "dots")).2.mesh? ⟨1⟩ =
      some ⟨some ⟨⟨none, "dots"⟩⟩⟩ ∧
    SameComponents stubbornDeer.store (stubbornDeer.recoverBackup "herd").2.store := by
  obtain ⟨hrecover, -, -, hassign⟩ := changes_of_noop stubbornDeer
  have hnoop : (stubbornDeer.assignBehavior "herd" "critter" (some "dots")).1.isNoop = true := by
    decide
  obtain ⟨hothers, hmesh⟩ := (hassign "herd" "critter" (some "dots")).2 hnoop ⟨1⟩
  exact ⟨hnoop, hothers .behavior (by decide), hmesh, (hrecover "herd").same (by decide)⟩

/-- So that nobody is affected does not mean that nothing has changed. -/
theorem not_unchanged_of_noop :
    ¬ ∀ (c : Coordinator (Gated Ban)) (label treeName : String) (skinName : Option String),
      (c.assignBehavior label treeName skinName).1.isNoop = true →
        SameComponents c.store (c.assignBehavior label treeName skinName).2.store := by
  intro h
  have hsame := h stubbornDeer "herd" "critter" (some "dots") (by decide) ⟨1⟩ .skeletalMesh
  have hmesh : (stubbornDeer.assignBehavior "herd" "critter" (some "dots")).2.mesh? ⟨1⟩ =
    stubbornDeer.mesh? ⟨1⟩ := hsame
  exact absurd hmesh (by decide)

end Coordinator

end Herd
