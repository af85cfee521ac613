import Herd.Proofs.Group.Footprint
import Herd.Proofs.Run.Lockstep

/-!
# What comes of a collective assignment

A collective assignment to a hivemind ends in one of five ways: the hivemind is empty, the name of
the tree does not resolve, the hivemind runs the tree already, the store refuses the record, or it
saves it. On a lawful store all but the last report nobody affected and leave every component as it
was (`Coordinator.assignCollective_cases`).

A hivemind has no member twice, so a run for it has its members in order
(`Hivemind.members_start`); ticks change neither them nor the tree.
-/

namespace Herd

open EntityStore LawfulStore

universe u

/-! ## Runs for a hivemind -/

/-- A run for a hivemind is for its members, in order. -/
theorem Hivemind.members_start (hive : Hivemind) (tree : BehaviorTree)
    (policy : CollectivePolicy) : (CollectiveRun.start hive.actors tree policy).members =
      hive.members := by
  have hentities : hive.actors.map (·.entity) = hive.members := by
    rw [actors, List.map_map]
    exact List.map_id _
  have hdistinct : (hive.actors.map (·.entity)).Nodup := hentities ▸ hive.distinct
  show (CollectiveRun.distinct hive.actors).map (·.entity) = hive.members
  rw [CollectiveRun.distinct_of_nodup hdistinct, hentities]

/-- A record is left as it is exactly if it has the same tree asset already. -/
theorem Collective.rebound_eq_none_iff {existing : Option CollectiveBehavior} {fresh : Nat}
    {tree : BehaviorTree} {run : CollectiveRun} :
    rebound existing fresh tree run = none ↔
      ∃ record, existing = some record ∧ record.tree.sameAsset tree = true := by
  cases existing with
  | none => simp [rebound]
  | some record => simp [rebound]

namespace Coordinator

variable {σ : Type} [EntityStore σ]

/-- The collective behavior that an entity carries. -/
def collective? (c : Coordinator σ) (e : EntityId) : Option CollectiveBehavior :=
  get? e .collectiveBehavior c.store

section Exits

variable {c : Coordinator σ} {h : EntityId} {hive : Hivemind} (hhive : c.hivemind? h = some hive)
  {treeName : String}

include hhive

/-- A call on a hivemind of nobody affects nobody. -/
theorem assignCollective_of_empty (hempty : hive.members = []) (treeName : String) :
    c.assignCollective h treeName = (.ofTally .assignCollective hive.label ∅, c) := by
  simp only [assignCollective, hhive, hempty, List.isEmpty_nil, if_true]

variable (hmembers : hive.members ≠ [])
include hmembers

/-- A call with a name that does not resolve is aborted. -/
theorem assignCollective_of_error {fault : Fault}
    (htree : c.library.tree treeName = .error fault) :
    c.assignCollective h treeName = (.abort .assignCollective hive.label fault, c) := by
  simp only [assignCollective, hhive, List.isEmpty_iff, if_neg hmembers, htree]

variable {tree : BehaviorTree} (htree : c.library.tree treeName = .ok tree)
include htree

/-- A call for the tree that the record has changes nothing but the count of records. -/
theorem assignCollective_of_same {record : CollectiveBehavior}
    (hrecord : c.collective? h = some record) (hsame : record.tree.sameAsset tree = true) :
    c.assignCollective h treeName =
      (.ofTally .assignCollective hive.label (.skip h .unchanged), c.freshRecord.2) := by
  have hexisting : get? h .collectiveBehavior c.store = some record := hrecord
  simp only [assignCollective, hhive, List.isEmpty_iff, if_neg hmembers, htree, freshRecord,
    hexisting, Collective.rebound, if_pos hsame]

variable {record : CollectiveBehavior} (hrecord : Collective.rebound (c.collective? h) c.recordCount
  tree (.start hive.actors tree c.settings.collectivePolicy) = some record) {store : σ}
include hrecord

theorem assignCollective_of_refused {f : StoreFault}
    (hsave : save h .collectiveBehavior record c.store = (.error f, store)) :
    c.assignCollective h treeName = (.ofTally .assignCollective hive.label (.fail h f.toFault),
      { c.freshRecord.2 with store }) := by
  have hrebound : Collective.rebound (get? h .collectiveBehavior c.store) c.recordCount tree
    (.start hive.actors tree c.settings.collectivePolicy) = some record := hrecord
  simp only [assignCollective, hhive, List.isEmpty_iff, if_neg hmembers, htree, freshRecord,
    hrebound, hsave]

theorem assignCollective_of_saved
    (hsave : save h .collectiveBehavior record c.store = (.ok (), store)) :
    c.assignCollective h treeName = (.ofTally .assignCollective hive.label ⟨hive.members, [], []⟩,
      { c.freshRecord.2 with store }) := by
  have hrebound : Collective.rebound (get? h .collectiveBehavior c.store) c.recordCount tree
    (.start hive.actors tree c.settings.collectivePolicy) = some record := hrecord
  simp only [assignCollective, hhive, List.isEmpty_iff, if_neg hmembers, htree, freshRecord,
    hrebound, hsave]

end Exits

/-- A collective assignment to a hivemind reports nobody affected and changes no component, or it
affects the members, of whom there are some, and binds the record to the tree of the name. -/
theorem assignCollective_cases [LawfulStore σ] {c : Coordinator σ} {h : EntityId} {hive : Hivemind}
    (hhive : c.hivemind? h = some hive) (treeName : String) :
    ((c.assignCollective h treeName).1.affected = [] ∧
      SameComponents c.store (c.assignCollective h treeName).2.store) ∨
    ∃ tree record, c.library.tree treeName = .ok tree ∧ hive.members ≠ [] ∧
      Collective.rebound (c.collective? h) c.recordCount tree
        (.start hive.actors tree c.settings.collectivePolicy) = some record ∧
      (save h .collectiveBehavior record c.store).1 = .ok () ∧
      (c.assignCollective h treeName).1.affected = hive.members ∧
      (c.assignCollective h treeName).2.collective? h = some record := by
  by_cases hmembers : hive.members = []
  · rw [assignCollective_of_empty hhive hmembers]
    exact .inl ⟨rfl, fun _ _ => rfl⟩
  · cases htree : c.library.tree treeName with
    | error fault =>
      rw [assignCollective_of_error hhive hmembers htree]
      exact .inl ⟨rfl, fun _ _ => rfl⟩
    | ok tree =>
      cases hrecord : Collective.rebound (c.collective? h) c.recordCount tree
          (.start hive.actors tree c.settings.collectivePolicy) with
      | none =>
        obtain ⟨existing, hexisting, hsame⟩ := Collective.rebound_eq_none_iff.mp hrecord
        rw [assignCollective_of_same hhive hmembers htree hexisting hsame]
        exact .inl ⟨rfl, fun _ _ => rfl⟩
      | some record =>
        have hobeys := save_obeys h .collectiveBehavior record c.store
        rcases hsave : save h .collectiveBehavior record c.store with ⟨f | ⟨⟩, store⟩
        · rw [assignCollective_of_refused hhive hmembers htree hrecord hsave]
          rw [hsave] at hobeys
          exact .inl ⟨rfl, hobeys⟩
        · rw [assignCollective_of_saved hhive hmembers htree hrecord hsave]
          rw [hsave] at hobeys
          exact .inr ⟨tree, record, rfl, hmembers, hrecord, congrArg Prod.fst hsave, rfl,
            hobeys.written⟩

end Coordinator

end Herd
