import Herd.Proofs.Group.Standing
import Herd.Proofs.World.Gate

/-!
# Refused writes and standings

Behavior and tag of an entity change together. Where both may be written (`Switchable`)
the entity is affected; where a write to either is refused it fails, and its standing is
what it was: the behavior is saved before the tag, and what was saved is put back by a
write that was admitted a moment ago.

`unswitched_of_failed` says so of group assignments and recoveries over a population
behind any ban.
-/

namespace Herd

open EntityStore SteadyStore

variable {σ : Type} [EntityStore σ] [SteadyStore σ] {e : EntityId} {s t : σ}

/-- Behavior and tag of an entity may both be written. -/
def Switchable (e : EntityId) (s : σ) : Prop :=
  refusal e .behavior s = none ∧ refusal e .groupTag s = none

/-- Who may be switched stays so, whatever is written elsewhere. -/
theorem Keeps.switchable_iff (h : Keeps e s t) : Switchable e t ↔ Switchable e s := by
  rw [Switchable, Switchable, h.refusals, h.refusals]

/-! ## Entries of a tally -/

/-- An entity fails in what a tally says about it exactly if it fails. -/
theorem Tally.fails_about {tally : Tally} :
    (∃ fault, (e, fault) ∈ (tally.about e).failures) ↔ ∃ fault, (e, fault) ∈ tally.failures := by
  refine exists_congr fun fault => ?_
  show (e, fault) ∈ tally.failures.filter (·.1 = e) ↔ _
  rw [List.mem_filter]
  exact and_iff_left (decide_eq_true rfl)

theorem Report.failed_iff {report : Report} :
    report.failed e = true ↔ ∃ fault, (e, fault) ∈ report.failures := by
  unfold failed
  rw [List.any_eq_true]
  constructor
  · rintro ⟨⟨e', fault⟩, hmem, he⟩
    obtain rfl : e' = e := of_decide_eq_true he
    exact ⟨fault, hmem⟩
  · rintro ⟨fault, hmem⟩
    exact ⟨(e, fault), hmem, decide_eq_true rfl⟩

/-! ## Turns -/

/-- What comes of an entity whose behavior and tag are to change together, on a store `s`. -/
structure Outcome (e : EntityId) (s : σ) (tally : Tally) : Prop where
  affected : e ∈ tally.affected ↔ Switchable e s
  failed : ¬ Switchable e s → ∃ fault, (e, fault) ∈ tally.failures

theorem outcome_affect (h : Switchable e s) : Outcome e s (.affect e) :=
  ⟨iff_of_true (List.mem_singleton_self e) h, fun hno => absurd h hno⟩

theorem outcome_fail (fault : Fault) (h : ¬ Switchable e s) : Outcome e s (.fail e fault) :=
  ⟨iff_of_false List.not_mem_nil h, fun _ => ⟨fault, List.mem_singleton_self _⟩⟩

/-- A switch affects the member exactly if it may be switched, and else it fails. -/
theorem outcome_switchBehavior (b : Behavior) (tag : GroupTag) (e : EntityId) (s : σ) :
    Outcome e s (switchBehavior b tag e s).1 := by
  cases hb : refusal e .behavior s with
  | some f =>
    rw [switchBehavior_of_refused b tag hb]
    refine outcome_fail _ fun h => ?_
    cases hb.symm.trans h.1
  | none =>
    cases htag : refusal e .groupTag s with
    | some f =>
      obtain ⟨s', hs, -⟩ := switchBehavior_of_tag_refused b tag hb htag
      rw [hs]
      refine outcome_fail _ fun h => ?_
      cases htag.symm.trans h.2
    | none =>
      obtain ⟨s₁, s₂, hs, -⟩ := switchBehavior_of_admitted b tag hb htag
      rw [hs]
      exact outcome_affect ⟨hb, htag⟩

/-- What affects nobody, goes first and leaves the refusals as they are makes no difference. -/
theorem Outcome.after {before tally : Tally} (h : Outcome e t tally) (hkeeps : Keeps e s t)
    (hnobody : before.affected = []) : Outcome e s (before ++ tally) := by
  refine ⟨?_, fun hno => ?_⟩
  · show e ∈ before.affected ++ tally.affected ↔ _
    rw [hnobody, List.nil_append, h.affected, hkeeps.switchable_iff]
  · obtain ⟨fault, hfault⟩ := h.failed (mt hkeeps.switchable_iff.mp hno)
    exact ⟨fault, List.mem_append_right _ hfault⟩

/-- Only what a tally says about the entity counts. -/
theorem Outcome.of_about {tally : Tally} (h : Outcome e s (tally.about e)) : Outcome e s tally :=
  ⟨Tally.mem_affected_about.symm.trans h.affected, fun hno => Tally.fails_about.mp (h.failed hno)⟩

/-! ## Operations -/

namespace Coordinator

/-- The backup in the tag of an entity has both halves, and they go together. -/
def Resumable (c : Coordinator σ) (e : EntityId) : Prop :=
  ∃ tag tree snapshot run, c.tag? e = some tag ∧ tag.backupTree = some tree ∧
    tag.backupState = some snapshot ∧ Run.resume tree snapshot = .ok run

section Steady

variable (c : Coordinator σ) {label treeName : String}

/-- A member of an assigned group is affected where it may be switched, and fails elsewhere. -/
theorem outcome_assignBehavior {tree : BehaviorTree} (skinName : Option String)
    (htree : c.library.tree treeName = .ok tree) (he : e ∈ c.members label) :
    Outcome e c.store (c.assignBehavior label treeName skinName).1.toTally := by
  obtain ⟨tag, htag⟩ := c.exists_tag_of_mem_members he
  refine Outcome.of_about ?_
  rw [(c.assignBehavior_of_mem skinName htree he).1, Assignment.turn_of_tag _ tree _ htag]
  -- the skin goes first, and whatever comes of it, the same writes are refused after it
  exact (outcome_switchBehavior _ _ e _).after ((Assignment.applySkin_local _ e).keeps c.store)
    (Assignment.standing_applySkin _ e c.store).1

/-- So is a member of a recovered group, if it has a backup that can be resumed. -/
theorem outcome_recoverBackup (he : e ∈ c.members label) (h : c.Resumable e) :
    Outcome e c.store (c.recoverBackup label).1.toTally := by
  obtain ⟨tag, tree, snapshot, run, htag, htree, hsnapshot, hrun⟩ := h
  refine Outcome.of_about ?_
  rw [(c.recoverBackup_of_mem he).1, Recovery.turn_of_backup _ htag htree hsnapshot hrun]
  exact outcome_switchBehavior _ _ e c.store

/-- Who is not affected by an assignment has the behavior and the tag that it had. -/
theorem standing_of_not_affected_assignBehavior {skinName : Option String}
    (h : e ∉ (c.assignBehavior label treeName skinName).1.affected) :
    standing e (c.assignBehavior label treeName skinName).2.store = standing e c.store := by
  rcases c.standing_assignBehavior label treeName skinName e with
    ⟨-, hsame⟩ | ⟨tree, tag, -, -, hyes, -⟩
  · exact hsame
  · exact absurd hyes h

theorem standing_of_not_affected_recoverBackup (h : e ∉ (c.recoverBackup label).1.affected) :
    standing e (c.recoverBackup label).2.store = standing e c.store := by
  rcases c.standing_recoverBackup label e with ⟨-, hsame⟩ | ⟨_, _, _, _, -, -, -, -, hyes, -⟩
  · exact hsame
  · exact absurd hyes h

end Steady

end Coordinator

/-! ## Behind a ban -/

namespace Gated

/-- A write to a kind of component of an entity is not banned, and the entity is not marked. -/
def admits (e : EntityId) (kind : ComponentKind) (s : Gated Ban) : Bool :=
  !s.gate.refuses e kind && decide (e ∉ s.population.readOnly)

/-- Behavior and tag of an entity may both be written. -/
def admitsSwitch (e : EntityId) (s : Gated Ban) : Bool :=
  s.admits e .behavior && s.admits e .groupTag

variable {s : Gated Ban} {kind' : ComponentKind} {x : kind'.Payload}

/-- For an entity that there is, nothing else counts. -/
theorem refusal_eq_none_iff (hx : get? e kind' s = some x) (kind : ComponentKind) :
    refusal e kind s = none ↔ s.admits e kind = true := by
  have hpopulation : refusal e kind s.population = none ↔ e ∉ s.population.readOnly := by
    constructor
    · intro h hmark
      rw [Population.refusal_of_mem_readOnly hmark] at h
      cases h
    · exact fun hmark => Population.refusal_of_not_mem_readOnly hx hmark kind
  refine refusalOf_eq_none.trans ?_
  rw [hpopulation, admits, Bool.and_eq_true, Bool.not_eq_true', decide_eq_true_eq,
    Bool.not_eq_true]

/-- Behind a ban a member may be switched if neither the ban nor a mark stands against it. -/
theorem switchable_iff (hx : get? e kind' s = some x) :
    Switchable e s ↔ s.admitsSwitch e = true := by
  rw [Switchable, refusal_eq_none_iff hx, refusal_eq_none_iff hx, admitsSwitch, Bool.and_eq_true]

end Gated

namespace Coordinator

variable (c : Coordinator (Gated Ban)) {label : String}

/-- Behind a ban a member that is to be switched is affected or fails, as the ban has it. -/
theorem affected_or_failed {report : Report} (he : e ∈ c.members label)
    (h : Outcome e c.store report.toTally) :
    if c.store.admitsSwitch e then e ∈ report.affected
    else report.failed e = true ∧ e ∉ report.affected := by
  obtain ⟨tag, htag⟩ := c.exists_tag_of_mem_members he
  have hswitchable : Switchable e c.store ↔ c.store.admitsSwitch e = true :=
    Gated.switchable_iff htag
  split
  · next hadmits => exact h.affected.mpr (hswitchable.mpr hadmits)
  · next hadmits =>
    have hno : ¬ Switchable e c.store := mt hswitchable.mp hadmits
    exact ⟨Report.failed_iff.mpr (h.failed hno), mt h.affected.mp hno⟩

/-- **Refused writes leave no member half-switched**: behind any ban, an entity that a group
assignment or a recovery lists as failed and not as affected runs what it ran and has the tag that
it had. A member is affected if behavior and tag may both be written, and fails if not. -/
theorem unswitched_of_failed (c : Coordinator (Gated Ban)) (label : String) (e : EntityId) :
    (∀ treeName skinName,
      let report := (c.assignBehavior label treeName skinName).1
      let c' := (c.assignBehavior label treeName skinName).2
      (report.failed e = true → e ∉ report.affected →
        c'.runs? e = c.runs? e ∧ c'.tag? e = c.tag? e) ∧
      (e ∈ c.members label → (∃ tree, c.library.tree treeName = .ok tree) →
        if c.store.admitsSwitch e then e ∈ report.affected
        else report.failed e = true ∧ e ∉ report.affected)) ∧
    (let report := (c.recoverBackup label).1
      let c' := (c.recoverBackup label).2
      (report.failed e = true → e ∉ report.affected →
        c'.runs? e = c.runs? e ∧ c'.tag? e = c.tag? e) ∧
      (e ∈ c.members label → c.Resumable e →
        if c.store.admitsSwitch e then e ∈ report.affected
        else report.failed e = true ∧ e ∉ report.affected)) := by
  refine ⟨fun treeName skinName => ⟨fun _ hno => ?_, fun he htree => ?_⟩, fun _ hno => ?_,
    fun he hbackup => ?_⟩
  · have hsame := c.standing_of_not_affected_assignBehavior hno
    exact ⟨congrArg Prod.fst hsame, congrArg Prod.snd hsame⟩
  · obtain ⟨tree, htree⟩ := htree
    exact c.affected_or_failed he (c.outcome_assignBehavior skinName htree he)
  · have hsame := c.standing_of_not_affected_recoverBackup hno
    exact ⟨congrArg Prod.fst hsame, congrArg Prod.snd hsame⟩
  · exact c.affected_or_failed he (c.outcome_recoverBackup he hbackup)

/-- A deer that was taken over from grazing, and whose tag may not be written. -/
def lockedDeer : Coordinator (Gated Ban) where
  store :=
    let grazing : Behavior := .start ⟨1⟩ ⟨⟨none, "graze"⟩, .leaf (.action "eat")⟩
    let walking : Behavior := .start ⟨1⟩ ⟨⟨none, "critter"⟩, .leaf (.action "walk")⟩
    let deer := { EntityRecord.ofName "deer" with
      groupTag := some ((GroupTag.ofLabel "herd").recordBackup grazing)
      behavior := some walking }
    ⟨(Population.empty.spawn deer).2, ⟨fun e kind => e = ⟨1⟩ && kind = .groupTag⟩⟩
  library := Library.empty.addTree ⟨⟨none, "critter"⟩, .leaf (.action "walk")⟩
  settings := .standard
  registry := .empty
  recordCount := 0

/-- Its behavior may be written, and was when its tag is refused; it goes on walking even so. -/
theorem lockedDeer_unswitched :
    lockedDeer.store.admits ⟨1⟩ .behavior = true ∧
    (lockedDeer.assignBehavior "herd" "critter" none).2.runs? ⟨1⟩ = lockedDeer.runs? ⟨1⟩ ∧
    (lockedDeer.recoverBackup "herd").2.runs? ⟨1⟩ = lockedDeer.runs? ⟨1⟩ := by
  obtain ⟨hassign, hrecover, -⟩ := unswitched_of_failed lockedDeer "herd" ⟨1⟩
  refine ⟨by decide, ?_, ?_⟩
  · exact ((hassign "critter" none).1 (by decide) (by decide)).1
  · exact (hrecover (by decide) (by decide)).1

end Coordinator

end Herd
