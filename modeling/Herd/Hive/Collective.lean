import Herd.Coordinator

/-!
# The collective behavior of a hivemind

One tree, run once for all members of a hivemind. A hivemind that runs the tree
already is left alone; one that runs another tree keeps its record and gets a new
run.
-/

namespace Herd

variable {σ : Type} [EntityStore σ]

namespace Collective

/-- What a hivemind is to carry, under the identity `fresh` if it carries no record yet, or
`none` where it runs the tree already. -/
def rebound (existing : Option CollectiveBehavior) (fresh : Nat) (tree : BehaviorTree)
    (run : CollectiveRun) : Option CollectiveBehavior :=
  match existing with
  | some record => if record.tree.sameAsset tree then none else some (record.rebind tree run)
  | none => some (.create fresh tree run)

end Collective

/-- Run a tree collectively for the members of the hivemind that an entity carries. -/
def Coordinator.assignCollective (c : Coordinator σ) (entity : EntityId) (treeName : String) :
    Report × Coordinator σ :=
  match c.hivemind? entity with
  | none => (.abort .assignCollective "" (.notAHivemind entity), c)
  | some hive =>
    if hive.members.isEmpty then (.ofTally .assignCollective hive.label ∅, c)
    else
      match c.library.tree treeName with
      | .error fault => (.abort .assignCollective hive.label fault, c)
      | .ok tree =>
        let run := CollectiveRun.start hive.actors tree c.settings.collectivePolicy
        match c.freshRecord with
        | (fresh, c) =>
          let existing : Option CollectiveBehavior :=
            EntityStore.get? entity .collectiveBehavior c.store
          match Collective.rebound existing fresh tree run with
          | none => (.ofTally .assignCollective hive.label (.skip entity .unchanged), c)
          | some record =>
            match EntityStore.save entity .collectiveBehavior record c.store with
            | (.ok (), store) =>
              (.ofTally .assignCollective hive.label ⟨hive.members, [], []⟩, { c with store })
            | (.error f, store) =>
              (.ofTally .assignCollective hive.label (.fail entity f.toFault), { c with store })

end Herd
