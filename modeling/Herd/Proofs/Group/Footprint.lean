import Herd.Group.Assignment
import Herd.Group.Recovery
import Herd.Hive.Collective
import Herd.Hive.Materialize
import Herd.Hive.Speed
import Herd.Proofs.World.Written
import Herd.World.Ticking

/-!
# Footprints of group operations

Where an operation writes is settled before it writes anything: a pass writes to the members of its
group, or of its hivemind, and to the kinds of components that its turns save; a collective
assignment and a tick write to one component. A new hivemind concerns the new entity only
(`Coordinator.get?_materializeHivemind`).
-/

namespace Herd

open EntityStore LawfulStore

universe u

variable {σ : Type} [EntityStore σ] {allowed : EntityId → ComponentKind → Prop} {e : EntityId}

/-! ## Turns -/

/-- A save that is tallied writes to one place. -/
theorem saveComponent_written {kind : ComponentKind} (hplace : allowed e kind) (saved : Tally)
    (x : kind.Payload) (s : σ) : Written allowed s (saveComponent saved e kind x s).2 := by
  have hsave : Written allowed s (save e kind x s).2 := Written.refl.save hplace x
  unfold saveComponent
  split
  · next t hs => rwa [hs] at hsave
  · next f t hs => rwa [hs] at hsave

/-- Taking a behavior back writes where it was written. -/
theorem Written.revertBehavior {s t : σ} (h : Written allowed s t) (hplace : allowed e .behavior)
    (previous : Option Behavior) : Written allowed s (revertBehavior e previous t) := by
  cases previous with
  | none => exact h.remove hplace
  | some b => exact h.save hplace b

/-- A switch writes the behavior and the tag, and may take the one back if the other is refused. -/
theorem switchBehavior_written (hbehavior : allowed e .behavior) (htag : allowed e .groupTag)
    (b : Behavior) (tag : GroupTag) (s : σ) : Written allowed s (switchBehavior b tag e s).2 := by
  have hfirst : Written allowed s (save e .behavior b s).2 := Written.refl.save hbehavior b
  unfold switchBehavior
  split
  · next f s₁ hs₁ => rwa [hs₁] at hfirst
  · next s₁ hs₁ =>
    rw [hs₁] at hfirst
    have hboth := hfirst.save htag tag
    split
    · next f s₂ hs₂ =>
      rw [hs₂] at hboth
      exact hboth.revertBehavior hbehavior _
    · next s₂ hs₂ => rwa [hs₂] at hboth

namespace Assignment

/-- The kinds of components that a group assignment saves. -/
def kinds : List ComponentKind := [.skeletalMesh, .behavior, .groupTag]

theorem applySkin_written (hplace : allowed e .skeletalMesh) (skin : Option Skin) (s : σ) :
    Written allowed s (applySkin skin e s).2 := by
  unfold applySkin
  split
  · exact saveComponent_written hplace _ _ s
  · exact .refl

/-- A turn of an assignment writes to components of these kinds, of its member only. -/
theorem turn_written (hplace : ∀ kind ∈ kinds, allowed e kind) (policy : BackupPolicy)
    (tree : BehaviorTree) (skin : Option Skin) (s : σ) :
    Written allowed s (turn policy tree skin e s).2 := by
  unfold turn
  split
  · exact .refl
  · exact (applySkin_written (hplace .skeletalMesh (by decide)) skin s).trans
      (switchBehavior_written (hplace .behavior (by decide)) (hplace .groupTag (by decide)) _ _ _)

end Assignment

namespace Recovery

/-- The kinds of components that a recovery saves. -/
def kinds : List ComponentKind := [.behavior, .groupTag]

theorem turn_written (hplace : ∀ kind ∈ kinds, allowed e kind) (clear : Bool) (s : σ) :
    Written allowed s (turn clear e s).2 := by
  unfold turn
  split
  · exact .refl
  · split
    · split
      · exact .refl
      · exact switchBehavior_written (hplace .behavior (by decide)) (hplace .groupTag (by decide))
          _ _ s
    · exact .refl

end Recovery

theorem Speed.turn_written (hplace : allowed e .characterMovement) (multiplier : Float32) (s : σ) :
    Written allowed s (turn multiplier e s).2 := by
  unfold turn
  split
  · exact .refl
  · exact saveComponent_written hplace _ _ s

/-- A pass writes where its turns do. -/
theorem Tally.pass_written {turn : EntityId → σ → Tally × σ} {es : List EntityId}
    (hturn : ∀ e ∈ es, ∀ s, Written allowed s (turn e s).2) :
    ∀ s, Written allowed s (pass turn es s).2 := by
  induction es with
  | nil => exact fun _ => .refl
  | cons d rest ih =>
    exact fun s => (hturn d List.mem_cons_self s).trans
      (ih (fun e he => hturn e (List.mem_cons_of_mem d he)) (turn d s).2)

/-! ## Operations -/

namespace Coordinator

variable (c : Coordinator σ)

/-- A group assignment writes to the members. -/
theorem assignBehavior_written (label treeName : String) (skinName : Option String) :
    Written (fun e kind => e ∈ c.members label ∧ kind ∈ Assignment.kinds) c.store
      (c.assignBehavior label treeName skinName).2.store := by
  unfold assignBehavior
  cases c.library.tree treeName with
  | error fault => exact .refl
  | ok tree =>
    exact Tally.pass_written
      (fun _ he => Assignment.turn_written (fun _ hkind => ⟨he, hkind⟩) _ tree _) c.store

/-- A recovery writes to the members. -/
theorem recoverBackup_written (label : String) :
    Written (fun e kind => e ∈ c.members label ∧ kind ∈ Recovery.kinds) c.store
      (c.recoverBackup label).2.store :=
  Tally.pass_written (fun _ he => Recovery.turn_written (fun _ hkind => ⟨he, hkind⟩) _) c.store

/-- Speed is written to movement, and nothing else is. -/
theorem propagateSpeed_written (entity : EntityId) (multiplier : Float32) :
    Written (fun _ kind => kind = .characterMovement) c.store
      (c.propagateSpeed entity multiplier).2.store := by
  unfold propagateSpeed
  split
  · exact .refl
  · exact Tally.pass_written (fun _ _ => Speed.turn_written rfl multiplier) c.store

/-- A collective assignment writes to the record. -/
theorem assignCollective_written (entity : EntityId) (treeName : String) :
    Written (fun e kind => e = entity ∧ kind = .collectiveBehavior) c.store
      (c.assignCollective entity treeName).2.store := by
  have hsave : ∀ record : CollectiveBehavior,
      Written (fun e kind => e = entity ∧ kind = .collectiveBehavior) c.store
        (save entity .collectiveBehavior record c.store).2 :=
    fun _ => .save .refl ⟨rfl, rfl⟩ _
  unfold assignCollective
  split
  · exact .refl
  · split
    · exact .refl
    · split
      · exact .refl
      · simp only [freshRecord]
        split
        · exact .refl
        · next record _ =>
          have hrecord := hsave record
          split
          · next store hs => rwa [hs] at hrecord
          · next fault store hs => rwa [hs] at hrecord

/-- A new hivemind is a component of the new entity, and changes nothing else. If it is refused the
new entity goes, so it must not have had the component before. -/
theorem get?_materializeHivemind [LawfulStore σ] (label : String) {kind : ComponentKind}
    (hplace : e = (EntityStore.create hivemindEntityName c.store).1 →
      kind ≠ .hivemind ∧ get? e kind c.store = none) :
    get? e kind (c.materializeHivemind label).2.store = get? e kind c.store := by
  have hcreate := same_of_create hivemindEntityName c.store e kind
  unfold materializeHivemind
  split
  next entity store hstore =>
    rw [hstore] at hcreate hplace
    have hsave : get? e kind (save entity .hivemind
        (Hivemind.ofMembers label (membersOf label store)) store).2 = get? e kind store :=
      (save_obeys entity .hivemind _ store).get?_eq fun he => (hplace he).1
    dsimp only
    split
    · next t hs =>
      rw [hs] at hsave
      exact hsave.trans hcreate
    · next f t hs =>
      rw [hs] at hsave
      rw [get?_destroy]
      split
      · next he => exact (hplace he).2.symm
      · exact hsave.trans hcreate

end Coordinator

/-! ## Ticks -/

/-- A tick of an entity is saved back to its behavior. -/
theorem tickBehavior_written {α : Type u} (h : ActionHandler α) (entity : EntityId) (x : α)
    (s : σ) : Written (fun e kind => e = entity ∧ kind = .behavior) s
      (tickBehavior h entity x s).2.2 := by
  unfold tickBehavior
  split
  · exact .refl
  · exact .save .refl ⟨rfl, rfl⟩ _

theorem tickCollective_written {α : Type u} (h : ActionHandler α) (entity : EntityId) (x : α)
    (s : σ) : Written (fun e kind => e = entity ∧ kind = .collectiveBehavior) s
      (tickCollective h entity x s).2.2 := by
  unfold tickCollective
  split
  · exact .refl
  · exact .save .refl ⟨rfl, rfl⟩ _

end Herd
