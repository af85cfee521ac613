import Herd.Proofs.Group.Commuting
import Herd.Proofs.Group.Refusal

/-!
# The full effect of a group assignment

A group assignment writes three components of a member: the mesh, the behavior and the tag. What
comes of the behavior and the tag is their `standing`; the mesh shows the skin wherever it may be
written, whatever becomes of the other two (`Coordinator.mesh_assignBehavior`).

In a population an entity may be written or not, as a whole. So a member without a mark gets all
three (`Assigned`), a member with a mark none, and nobody else is concerned
(`Coordinator.assigned_in_full`).
-/

namespace Herd

open EntityStore SteadyStore

/-! ## What a member gets -/

/-- An entity's own run of a tree, with nothing on the blackboard, that has not been ticked. -/
structure Behavior.Untouched (e : EntityId) (tree : BehaviorTree) (b : Behavior) : Prop where
  given : b.tree = tree
  runs : b.run.tree = tree
  entity : b.run.actor.entity = e
  blank : b.run.actor.blackboard = .empty
  ticks : b.run.state.tickCount = 0
  root : b.run.state.isAtRoot = true
  lastStatus : b.run.state.lastStatus = none

theorem Behavior.untouched_start (e : EntityId) (tree : BehaviorTree) :
    (Behavior.start e tree).Untouched e tree :=
  ⟨rfl, rfl, rfl, rfl, rfl, rfl, rfl⟩

/-- The tag `after` is the tag `before` of a member that ran `previous` once its group has taken
over. What the member ran is backed up, unless the policy keeps what was backed up when the group
took over first. -/
structure GroupTag.TakenOver (policy : BackupPolicy) (previous : Option Behavior)
    (before after : GroupTag) : Prop where
  label : after.label = before.label
  marked : after.groupAssigned = true
  backedUp : ∀ b, previous = some b → policy = .overwrite ∨ before.groupAssigned = false →
    after.backupTree = some b.tree ∧ after.backupState = some b.run.snapshot
  kept : previous = none ∨ policy ≠ .overwrite ∧ before.groupAssigned = true →
    after.backupTree = before.backupTree ∧ after.backupState = before.backupState

namespace Assignment

/-- Behaviors are captured always, or the first time only. -/
theorem captures_iff {policy : BackupPolicy} {tag : GroupTag} :
    captures policy tag = true ↔ policy = .overwrite ∨ tag.groupAssigned = false := by
  cases policy <;> simp [captures]

/-- The tag of an assignment is taken over as the policy says. -/
theorem takenOver_assignedTag (policy : BackupPolicy) (tag : GroupTag)
    (previous : Option Behavior) :
    GroupTag.TakenOver policy previous tag (assignedTag policy tag previous) := by
  refine ⟨label_assignedTag policy tag previous, rfl, ?_, ?_⟩
  · rintro b rfl hcaptures
    simp only [assignedTag, if_pos (captures_iff.mpr hcaptures)]
    exact ⟨rfl, rfl⟩
  · intro hkept
    cases previous with
    | none => exact ⟨rfl, rfl⟩
    | some b =>
      obtain ⟨hpolicy, hassigned⟩ := hkept.resolve_left (Option.some_ne_none b)
      have hno : ¬ captures policy tag = true := by
        rw [captures_iff, hassigned]
        exact fun h => h.elim hpolicy Bool.noConfusion
      simp only [assignedTag, if_neg hno]
      exact ⟨trivial, trivial⟩

/-- The mesh of an entity, if it has one, once a skin is shown on it, if there is one. -/
def reskinned (skin : Option Skin) (mesh : Option SkeletalMesh) : Option SkeletalMesh :=
  match skin with
  | some look => mesh.map fun mesh => { mesh with material := some look }
  | none => mesh

end Assignment

section Steady

variable {σ : Type} [EntityStore σ] [SteadyStore σ] {e : EntityId} {s : σ}

namespace Assignment

/-- A skin is shown on a mesh that may be written. -/
theorem mesh_applySkin (skin : Option Skin) (e : EntityId) (s : σ) :
    (get? e .skeletalMesh (applySkin skin e s).2 : Option SkeletalMesh) =
      if refusal e .skeletalMesh s = none then reskinned skin (get? e .skeletalMesh s)
      else get? e .skeletalMesh s := by
  cases skin with
  | none => rw [applySkin_of_none (.inl rfl), reskinned, ite_self]
  | some look =>
    cases hmesh : (get? e .skeletalMesh s : Option SkeletalMesh) with
    | none => rw [applySkin_of_none (.inr hmesh), hmesh, reskinned, Option.map_none, ite_self]
    | some mesh =>
      rw [applySkin_of_some look hmesh]
      cases hrefusal : refusal e .skeletalMesh s with
      | some fault =>
        rw [saveComponent_of_refused ∅ _ hrefusal, if_neg (Option.some_ne_none fault), hmesh]
      | none =>
        obtain ⟨t, ht, hw⟩ := saveComponent_of_admitted ∅ (⟨some look⟩ : SkeletalMesh) hrefusal
        rw [ht, if_pos rfl]
        exact hw.written

/-- A skin that is refused changes nothing. -/
theorem applySkin_of_refused (skin : Option Skin) {fault : StoreFault}
    (h : refusal e .skeletalMesh s = some fault) : (applySkin skin e s).2 = s := by
  unfold applySkin
  split
  · rw [saveComponent_of_refused ∅ _ h]
  · rfl

/-- A turn of an entity that may not be written changes nothing. -/
theorem turn_of_refused (policy : BackupPolicy) (tree : BehaviorTree) (skin : Option Skin)
    {fault : ComponentKind → StoreFault} (h : ∀ kind, refusal e kind s = some (fault kind)) :
    (turn policy tree skin e s).2 = s := by
  unfold turn
  split
  · rfl
  · simp only [applySkin_of_refused skin (h .skeletalMesh), assignTree,
      switchBehavior_of_refused _ _ (h .behavior)]

/-- The mesh after a turn is the mesh with its skin: the tree makes no difference to it. -/
theorem mesh_turn (policy : BackupPolicy) (tree : BehaviorTree) (skin : Option Skin)
    {tag : GroupTag} (htag : get? e .groupTag s = some tag) :
    (get? e .skeletalMesh (turn policy tree skin e s).2 : Option SkeletalMesh) =
      get? e .skeletalMesh (applySkin skin e s).2 := by
  rw [turn_of_tag policy tree skin htag, assignTree]
  -- switching the behavior either puts all back or writes behavior and tag only
  rcases switchBehavior_cases (.start e tree) (assignedTag policy tag
      (get? e .behavior (applySkin skin e s).2)) e (applySkin skin e s).2 with
    ⟨-, hsame⟩ | ⟨-, -, -, hkinds⟩
  · exact (hsame.components .skeletalMesh).symm
  · exact hkinds .skeletalMesh (by decide) (by decide)

end Assignment

namespace Coordinator

/-- The mesh of an entity. -/
def mesh? (c : Coordinator σ) (e : EntityId) : Option SkeletalMesh := get? e .skeletalMesh c.store

variable (c : Coordinator σ) {label treeName : String}

/-- A group assignment shows its skin on the mesh of a member wherever that may be written, whatever
becomes of the behavior. -/
theorem mesh_assignBehavior {tree : BehaviorTree} (skinName : Option String)
    (htree : c.library.tree treeName = .ok tree) (he : e ∈ c.members label) :
    (c.assignBehavior label treeName skinName).2.mesh? e =
      if refusal e .skeletalMesh c.store = none then
        Assignment.reskinned (skinName.bind c.library.skin?) (c.mesh? e)
      else c.mesh? e := by
  obtain ⟨tag, htag⟩ := c.exists_tag_of_mem_members he
  have hturn := (c.assignBehavior_of_mem skinName htree he).2.components .skeletalMesh
  exact hturn.symm.trans ((Assignment.mesh_turn _ tree _ htag).trans (Assignment.mesh_applySkin ..))

end Coordinator

end Steady

/-! ## Populations -/

/-- What a group assignment of `tree` with `skin` makes of a member that may be written, from `p` to
`q`: an untouched run, the tag of a member that its group has taken over, and the skin on the mesh.
No other component changes. -/
structure Assigned (policy : BackupPolicy) (tree : BehaviorTree) (skin : Option Skin)
    (e : EntityId) (p q : Population) : Prop where
  behavior : ∃ b : Behavior, get? e .behavior q = some b ∧ b.Untouched e tree
  tag : ∃ before after : GroupTag, get? e .groupTag p = some before ∧
    get? e .groupTag q = some after ∧ before.TakenOver policy (get? e .behavior p) after
  mesh : (get? e .skeletalMesh q : Option SkeletalMesh) =
    Assignment.reskinned skin (get? e .skeletalMesh p)
  others : ∀ kind, kind ∉ Assignment.kinds → get? e kind q = get? e kind p

namespace Coordinator

variable (c : Coordinator Population) {label treeName : String} {skinName : Option String}
  {tree : BehaviorTree} {e : EntityId}

/-- A member is to be switched unless it is marked. -/
theorem switchable_iff_of_mem (he : e ∈ c.members label) :
    Switchable e c.store ↔ e ∉ c.store.readOnly := by
  obtain ⟨tag, htag⟩ := c.exists_tag_of_mem_members he
  constructor
  · intro h hmark
    rw [Switchable, Population.refusal_of_mem_readOnly hmark] at h
    cases h.1
  · intro hmark
    have hnone := Population.refusal_of_not_mem_readOnly htag hmark
    exact ⟨hnone .behavior, hnone .groupTag⟩

/-- The members that are not marked are affected. -/
theorem mem_affected_assignBehavior (skinName : Option String)
    (htree : c.library.tree treeName = .ok tree) :
    e ∈ (c.assignBehavior label treeName skinName).1.affected ↔
      e ∈ c.members label ∧ e ∉ c.store.readOnly := by
  by_cases he : e ∈ c.members label
  · rw [(c.outcome_assignBehavior skinName htree he).affected, c.switchable_iff_of_mem he]
    exact (and_iff_right he).symm
  · rw [← Tally.mem_affected_about, (c.assignBehavior_of_not_mem treeName skinName he).1]
    exact iff_of_false List.not_mem_nil fun h => he h.1

/-- A member that may be written gets all that it is assigned. -/
theorem assigned_of_mem (skinName : Option String) (htree : c.library.tree treeName = .ok tree)
    (he : e ∈ c.members label) (hmark : e ∉ c.store.readOnly) :
    Assigned c.settings.backupPolicy tree (skinName.bind c.library.skin?) e c.store
      (c.assignBehavior label treeName skinName).2.store := by
  have haffected := (c.mem_affected_assignBehavior skinName htree).mpr ⟨he, hmark⟩
  -- behavior and tag of an affected member are its new standing
  rcases c.standing_assignBehavior label treeName skinName e with
    ⟨hno, -⟩ | ⟨tree', before, htree', hbefore, -, hstanding⟩
  · exact absurd haffected hno
  · obtain rfl : tree = tree' := Except.ok.inj (htree.symm.trans htree')
    refine ⟨⟨_, congrArg Prod.fst hstanding, Behavior.untouched_start e tree⟩,
      ⟨before, _, hbefore, congrArg Prod.snd hstanding, ?_⟩, ?_, fun kind hkind => ?_⟩
    · exact Assignment.takenOver_assignedTag _ before _
    · have hadmitted := Population.refusal_of_not_mem_readOnly hbefore hmark .skeletalMesh
      exact (c.mesh_assignBehavior skinName htree he).trans (if_pos hadmitted)
    · exact (c.assignBehavior_written label treeName skinName).get?_eq fun h => hkind h.2

/-- A marked entity is as it was, a member or not. -/
theorem same_of_mem_readOnly (skinName : Option String) (htree : c.library.tree treeName = .ok tree)
    (hmark : e ∈ c.store.readOnly) (kind : ComponentKind) :
    get? e kind (c.assignBehavior label treeName skinName).2.store = get? e kind c.store := by
  by_cases he : e ∈ c.members label
  · have hturn := (c.assignBehavior_of_mem skinName htree he).2
    rw [Assignment.turn_of_refused _ tree _ (Population.refusal_of_mem_readOnly hmark)] at hturn
    exact (hturn.components kind).symm
  · exact ((c.assignBehavior_of_not_mem treeName skinName he).2.components kind).symm

/-- **The full effect of a group assignment.** With a tree that resolves it is not aborted, and
affects the members that are not marked: each of them is `Assigned`. A marked entity, and one that
is no member, keeps every component; the population keeps its entities, their names and the marks,
and every group its members. There is one warning if a skin is named that does not resolve, and else
none. -/
theorem assigned_in_full (c : Coordinator Population) (label : String) {treeName : String}
    {tree : BehaviorTree} (htree : c.library.tree treeName = .ok tree) (skinName : Option String) :
    let report := (c.assignBehavior label treeName skinName).1
    let c' := (c.assignBehavior label treeName skinName).2
    report.aborted = none ∧
    (∀ e, e ∈ report.affected ↔ e ∈ c.members label ∧ e ∉ c.store.readOnly) ∧
    (∀ e ∈ c.members label, e ∉ c.store.readOnly → Assigned c.settings.backupPolicy tree
      (skinName.bind c.library.skin?) e c.store c'.store) ∧
    (∀ e, e ∉ c.members label ∨ e ∈ c.store.readOnly →
      ∀ kind, get? e kind c'.store = get? e kind c.store) ∧
    c.store.SameRoll c'.store ∧
    (∀ group, c'.members group = c.members group) ∧
    ((∃ name, skinName = some name ∧ c.library.skin? name = none ∧
        report.warnings = [.resourceNotFound name]) ∨
      ((∀ name, skinName = some name → c.library.skin? name ≠ none) ∧ report.warnings = [])) := by
  intro report c'
  have hreport : report.aborted = none ∧ report.warnings = skinWarnings c.library skinName := by
    simp only [report, assignBehavior, htree, Report.ofTally, and_self]
  refine ⟨hreport.1, fun e => c.mem_affected_assignBehavior skinName htree, fun e he hmark =>
    c.assigned_of_mem skinName htree he hmark, fun e he kind => ?_, ?_, fun group => ?_, ?_⟩
  · rcases he with he | hmark
    · exact ((c.assignBehavior_of_not_mem treeName skinName he).2.components kind).symm
    · exact c.same_of_mem_readOnly skinName htree hmark kind
  · exact Population.sameRoll_of_written (c.assignBehavior_written label treeName skinName)
  · exact (GroupOperation.assign label treeName skinName).members_run c group
  · rw [hreport.2]
    cases skinName with
    | none => exact .inr ⟨fun name h => (Option.some_ne_none name h.symm).elim, rfl⟩
    | some name =>
      cases hskin : c.library.skin? name with
      | none => exact .inl ⟨name, rfl, hskin, by simp [skinWarnings, hskin]⟩
      | some look =>
        refine .inr ⟨fun name' h => ?_, by simp [skinWarnings, hskin]⟩
        rw [← Option.some.inj h, hskin]
        exact Option.some_ne_none look

/-- The tree of the deer below before their group takes over. -/
def grazing : BehaviorTree := ⟨⟨none, "graze"⟩, .leaf (.action "eat")⟩

/-- The tree that their group is given. -/
def walking : BehaviorTree := ⟨⟨some "Behaviors", "critter"⟩, .leaf (.action "walk")⟩

/-- Three deer that graze, each with a mesh. The first two are of one herd, spelled in two ways, and
the second is marked; the third is of another herd. -/
def threeDeer : Coordinator Population where
  store :=
    let deer (e : EntityId) (label : String) := { EntityRecord.ofName "deer" with
      groupTag := some (.ofLabel label)
      behavior := some (.start e grazing)
      skeletalMesh := some ⟨none⟩ }
    let pair := ((Population.empty.spawn (deer ⟨1⟩ "Herd")).2.spawn (deer ⟨2⟩ "herd")).2
    (pair.spawn (deer ⟨3⟩ "pack")).2.setReadOnly ⟨2⟩ true
  library := (Library.empty.addTree walking).addSkin ⟨none, "dots"⟩
  settings := .standard
  registry := .empty
  recordCount := 0

/-- The first walks in its new skin, and its grazing is backed up; nothing happens to the others. -/
theorem threeDeer_assigned :
    let c' := (threeDeer.assignBehavior "HERD" "critter" (some "dots")).2
    (∃ b, c'.runs? ⟨1⟩ = some b ∧ b.Untouched ⟨1⟩ walking) ∧
    (∃ tag, c'.tag? ⟨1⟩ = some tag ∧ tag.backupTree = some grazing) ∧
    c'.mesh? ⟨1⟩ = some ⟨some ⟨⟨none, "dots"⟩⟩⟩ ∧
    (∀ kind, get? ⟨2⟩ kind c'.store = get? ⟨2⟩ kind threeDeer.store) ∧
    (∀ kind, get? ⟨3⟩ kind c'.store = get? ⟨3⟩ kind threeDeer.store) ∧
    c'.members "pack" = [⟨3⟩] := by
  intro c'
  have htree : threeDeer.library.tree "critter" = .ok walking := rfl
  obtain ⟨-, -, hassigned, hsame, -, hmembers, -⟩ :=
    threeDeer.assigned_in_full "HERD" htree (some "dots")
  obtain ⟨hbehavior, ⟨before, tag, hbefore, htag, htaken⟩, hmesh, -⟩ :=
    hassigned ⟨1⟩ (by decide) (by decide)
  have hown : before.groupAssigned = false := by
    cases hbefore
    rfl
  refine ⟨hbehavior, ⟨tag, htag, (htaken.backedUp _ rfl (.inr hown)).1⟩, hmesh,
    hsame ⟨2⟩ (.inr (by decide)), hsame ⟨3⟩ (.inl (by decide)), ?_⟩
  rw [hmembers "pack"]
  decide

end Coordinator

end Herd
