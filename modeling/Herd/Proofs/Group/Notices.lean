import Herd.Proofs.Group.Accounting
import Herd.Proofs.Group.Standing
import Herd.Proofs.Hive.Broadcast
import Herd.Proofs.Hive.Collective

/-!
# Notices are true

A report takes its group to be empty when it names nobody. That is so because every operation that
is not aborted leaves an entry for whomever it addresses: recovery, speed and assignment for each
member, and a collective assignment at least one for the hivemind itself. The other notices are the
skipped entities without a backup, and only a recovery skips for that reason.

`Truthful` says so of one report, with a lemma for each of the four operations;
`Request.notices_truthful` is what follows for the notices.
-/

namespace Herd

open EntityStore SteadyStore

/-! ## What a report says of a group -/

namespace Report

variable {r : Report} {es : List EntityId}

/-- The entities that were skipped for want of a backup. -/
def unbacked (r : Report) : List EntityId :=
  (r.skipped.filter (·.2 = .missingPriorState)).map (·.1)

theorem isUntouched_iff : r.isUntouched = true ↔ ∀ e, r.mentions e = 0 := by
  unfold isUntouched Tally.mentions
  simp only [Bool.and_eq_true, List.isEmpty_iff]
  constructor
  · rintro ⟨⟨haffected, hskipped⟩, hfailures⟩ e
    rw [haffected, hskipped, hfailures]
    rfl
  · intro h
    simp only [Nat.add_eq_zero_iff, List.countP_eq_zero, decide_eq_true_eq] at h
    refine ⟨⟨?_, ?_⟩, ?_⟩
    · exact List.eq_nil_iff_forall_not_mem.mpr fun e he => (h e).1.1 e he rfl
    · exact List.eq_nil_iff_forall_not_mem.mpr fun x hx => (h x.1).1.2 x hx rfl
    · exact List.eq_nil_iff_forall_not_mem.mpr fun x hx => (h x.1).2 x hx rfl

/-- A report that names just the given entities names nobody if there are none. -/
theorem isUntouched_iff_of_mentions (h : ∀ e, r.mentions e = 0 ↔ e ∉ es) :
    r.isUntouched = true ↔ es = [] := by
  rw [isUntouched_iff, List.eq_nil_iff_forall_not_mem]
  exact forall_congr' h

/-- Where no one is skipped for want of a backup, no one is unbacked. -/
theorem unbacked_eq_nil (h : ∀ x ∈ r.skipped, x.2 ≠ .missingPriorState) : r.unbacked = [] := by
  have hnone : r.skipped.filter (·.2 = .missingPriorState) = [] :=
    List.filter_eq_nil_iff.mpr fun x hx => by simpa using h x hx
  rw [unbacked, hnone, List.map_nil]

end Report

/-- The report is about the group with that label and these members, some of whom have no backup. -/
structure Truthful (r : Report) (label : String) (members unbacked : List EntityId) : Prop where
  label : r.label = label
  untouched : r.aborted = none → (r.isUntouched = true ↔ members = [])
  unbacked : r.unbacked = unbacked

namespace Truthful

variable {r : Report} {label : String} {members unbacked : List EntityId}

/-- A truthful report has one notice for an empty group, or one for each member without a backup. -/
theorem notices_eq (h : Truthful r label members unbacked) :
    r.notices = if r.aborted = none ∧ members = [] then [.emptyGroup label]
      else unbacked.map .missingPriorState := by
  have hrest : (r.skipped.filter (·.2 = .missingPriorState)).map
      (fun x => Fault.missingPriorState x.1) = unbacked.map .missingPriorState := by
    rw [← h.unbacked, Report.unbacked, List.map_map]
    rfl
  rw [Report.notices, hrest, h.label]
  refine if_congr ?_ rfl rfl
  rw [Bool.and_eq_true, Option.isNone_iff_eq_none]
  exact and_congr_right h.untouched

/-- A notice says that the group is empty only where it is. -/
theorem emptyGroup_mem_notices (h : Truthful r label members unbacked) :
    (∃ l, .emptyGroup l ∈ r.notices) ↔ r.aborted = none ∧ members = [] := by
  rw [h.notices_eq]
  split
  · next hempty => simp [hempty]
  · next hsome => simp [hsome]

/-- No notice of a truthful report is more than benign. -/
theorem isBenign_of_mem_notices (h : Truthful r label members unbacked) {notice : Fault}
    (hnotice : notice ∈ r.notices) : notice.isBenign = true := by
  rw [h.notices_eq] at hnotice
  split at hnotice
  · rw [List.mem_singleton.mp hnotice]
    rfl
  · obtain ⟨e, -, rfl⟩ := List.mem_map.mp hnotice
    rfl

end Truthful

/-! ## Who is skipped -/

section Skipped

variable {σ : Type} [EntityStore σ] {e : EntityId} {s : σ}

/-- A switch skips nobody. -/
theorem skipped_switchBehavior (b : Behavior) (tag : GroupTag) :
    (switchBehavior b tag e s).1.skipped = [] := by
  unfold switchBehavior
  split
  · rfl
  · split <;> rfl

theorem skipped_saveComponent {kind : ComponentKind} {saved : Tally} (hsaved : saved.skipped = [])
    (x : kind.Payload) : (saveComponent saved e kind x s).1.skipped = [] := by
  unfold saveComponent
  split
  · exact hsaved
  · rfl

/-- An assignment skips nobody. -/
theorem Assignment.skipped_turn (policy : BackupPolicy) (tree : BehaviorTree) (skin : Option Skin) :
    (turn policy tree skin e s).1.skipped = [] := by
  have hskin : (applySkin skin e s).1.skipped = [] := by
    unfold applySkin
    split
    · exact skipped_saveComponent rfl _
    · rfl
  cases htag : (get? e .groupTag s : Option GroupTag) with
  | none =>
    simp only [turn, htag]
    rfl
  | some tag =>
    rw [turn_of_tag policy tree skin htag]
    exact List.append_eq_nil_iff.mpr ⟨hskin, skipped_switchBehavior _ _⟩

/-- A recovery skips those without a backup. -/
theorem Recovery.skipped_turn (clear : Bool) {tag : GroupTag}
    (htag : get? e .groupTag s = some tag) :
    (turn clear e s).1.skipped = if tag.hasBackup then [] else [(e, .missingPriorState)] := by
  cases hbackup : tag.hasBackup with
  | false =>
    rw [turn_of_no_backup clear htag hbackup]
    rfl
  | true =>
    rw [if_pos rfl]
    rcases turn_cases (σ := σ) clear e tag with
      ⟨hnone, -⟩ | ⟨fault, h⟩ | ⟨tree, snapshot, run, -, -, -, h⟩
    · rw [hnone] at hbackup
      cases hbackup
    · rw [h s htag]
      rfl
    · rw [h s htag, skipped_switchBehavior]

end Skipped

/-- Where each entity is skipped or not for one reason, the skipped ones are listed in order. -/
theorem Tally.skipped_each {tally : EntityId → Tally} {p : EntityId → Bool} (reason : SkipReason)
    {es : List EntityId}
    (h : ∀ e ∈ es, (tally e).skipped = if p e then [] else [(e, reason)]) :
    (each tally es).skipped = (es.filter fun e => !p e).map fun e => (e, reason) := by
  induction es with
  | nil => rfl
  | cons d rest ih =>
    show (tally d).skipped ++ (each tally rest).skipped = _
    rw [h d List.mem_cons_self, ih fun e he => h e (List.mem_cons_of_mem d he), List.filter_cons]
    cases p d <;> rfl

/-! ## The four operations -/

namespace Coordinator

variable (c : Coordinator Population)

/-- The entity has a tag with both halves of a backup. -/
def isBacked (e : EntityId) : Bool := (c.tag? e).any (·.hasBackup)

/-- The hivemind's members, or nobody where there is no hivemind. -/
def hiveMembers (h : EntityId) : List EntityId := (c.hivemind? h).elim [] (·.members)

/-- The hivemind's label, or none where there is no hivemind. -/
def hiveLabel (h : EntityId) : String := (c.hivemind? h).elim "" (·.label)

/-- An assignment skips nobody. -/
theorem skipped_assignBehavior (label treeName : String) (skinName : Option String) :
    (c.assignBehavior label treeName skinName).1.skipped = [] := by
  unfold assignBehavior
  split
  · rfl
  · show (Tally.pass _ _ _).1.skipped = []
    rw [Tally.fst_pass (Assignment.turn_local _ _ _) (c.nodup_members label)]
    refine Eq.trans (Tally.skipped_each (p := fun _ => true) .missingPriorState fun e _ => ?_) ?_
    · exact Assignment.skipped_turn _ _ _
    · simp

/-- A recovery skips the members without a backup, in order. -/
theorem skipped_recoverBackup (label : String) :
    (c.recoverBackup label).1.skipped =
      ((c.members label).filter fun e => !c.isBacked e).map (·, .missingPriorState) := by
  show (Tally.pass _ _ _).1.skipped = _
  rw [Tally.fst_pass (Recovery.turn_local _) (c.nodup_members label)]
  refine Tally.skipped_each _ fun e he => ?_
  obtain ⟨tag, htag, -⟩ := tag_of_mem_membersOf he
  have hbacked : c.isBacked e = tag.hasBackup := by
    rw [isBacked, tag?, htag, Option.any_some]
  rw [Recovery.skipped_turn _ htag, hbacked]

theorem truthful_assignBehavior (label treeName : String) (skinName : Option String) :
    Truthful (c.assignBehavior label treeName skinName).1 label (c.members label) [] := by
  refine ⟨?_, fun h => Report.isUntouched_iff_of_mentions fun e => ?_, ?_⟩
  · unfold assignBehavior
    split <;> rfl
  · rw [mentions_assignBehavior h]
    split
    · next he => split <;> simp [he]
    · next he => simp [he]
  · exact Report.unbacked_eq_nil (by rw [skipped_assignBehavior]; exact nofun)

/-- In a recovery, members without a backup are skipped. -/
theorem truthful_recoverBackup (label : String) :
    Truthful (c.recoverBackup label).1 label (c.members label)
      ((c.members label).filter fun e => !c.isBacked e) := by
  refine ⟨rfl, fun _ => Report.isUntouched_iff_of_mentions fun e => ?_, ?_⟩
  · rw [mentions_recoverBackup]
    split <;> simp [*]
  · rw [Report.unbacked, skipped_recoverBackup, List.filter_map, List.map_map]
    simp [Function.comp_def]

/-- A broadcast addresses the members of the hivemind, if the entity has one. -/
theorem truthful_propagateSpeed (h : EntityId) (speed : Float32) :
    Truthful (c.propagateSpeed h speed).1 (c.hiveLabel h) (c.hiveMembers h) [] := by
  cases hhive : c.hivemind? h with
  | none =>
    rw [propagateSpeed, hhive, hiveLabel, hiveMembers, hhive]
    exact ⟨rfl, fun h => absurd h (Option.some_ne_none _), rfl⟩
  | some hive =>
    have hreport := (exactBroadcast_propagateSpeed hhive speed).report
    rw [hiveLabel, hiveMembers, hhive]
    refine ⟨by rw [hreport]; rfl, fun hdone => ?_, Report.unbacked_eq_nil ?_⟩
    · obtain ⟨hive', hhive', hmentions⟩ := mentions_propagateSpeed hdone
      cases hhive.symm.trans hhive'
      refine Report.isUntouched_iff_of_mentions fun e => ?_
      rw [hmentions]
      split <;> simp [*]
    · rw [hreport]
      intro x hx
      obtain ⟨e, -, rfl⟩ := List.mem_map.mp hx
      intro hreason
      cases hreason

theorem truthful_assignCollective (h : EntityId) (treeName : String) :
    Truthful (c.assignCollective h treeName).1 (c.hiveLabel h) (c.hiveMembers h) [] := by
  cases hhive : c.hivemind? h with
  | none =>
    rw [assignCollective, hhive, hiveLabel, hiveMembers, hhive]
    exact ⟨rfl, fun h => absurd h (Option.some_ne_none _), rfl⟩
  | some hive =>
    rw [hiveLabel, hiveMembers, hhive]
    by_cases hmembers : hive.members = []
    · rw [assignCollective_of_empty hhive hmembers]
      exact ⟨rfl, fun _ => iff_of_true rfl hmembers, rfl⟩
    · cases htree : c.library.tree treeName with
      | error fault =>
        rw [assignCollective_of_error hhive hmembers htree]
        exact ⟨rfl, fun h => absurd h (Option.some_ne_none _), rfl⟩
      | ok tree =>
        cases hrecord : Collective.rebound (c.collective? h) c.recordCount tree
            (.start hive.actors tree c.settings.collectivePolicy) with
        | none =>
          obtain ⟨existing, hexisting, hsame⟩ := Collective.rebound_eq_none_iff.mp hrecord
          rw [assignCollective_of_same hhive hmembers htree hexisting hsame]
          exact ⟨rfl, fun _ => iff_of_false Bool.false_ne_true hmembers, rfl⟩
        | some record =>
          rcases hsave : save h .collectiveBehavior record c.store with ⟨f | ⟨⟩, store⟩
          · rw [assignCollective_of_refused hhive hmembers htree hrecord hsave]
            exact ⟨rfl, fun _ => iff_of_false Bool.false_ne_true hmembers, rfl⟩
          · rw [assignCollective_of_saved hhive hmembers htree hrecord hsave]
            refine ⟨rfl, fun _ => ?_, rfl⟩
            simp [Report.isUntouched, Report.ofTally]

end Coordinator

/-! ## Notices -/

/-- An operation that gives a report, with what it is asked for. -/
inductive Request
  | assign (label treeName : String) (skinName : Option String)
  | recover (label : String)
  | speed (entity : EntityId) (multiplier : Float32)
  | collective (entity : EntityId) (treeName : String)

namespace Request

variable (c : Coordinator Population)

/-- Do what is asked for, and report. -/
def run : Request → Report × Coordinator Population
  | assign label treeName skinName => c.assignBehavior label treeName skinName
  | recover label => c.recoverBackup label
  | speed entity multiplier => c.propagateSpeed entity multiplier
  | collective entity treeName => c.assignCollective entity treeName

/-- The label of the group that is addressed. -/
def label : Request → String
  | assign label _ _ | recover label => label
  | speed entity _ | collective entity _ => c.hiveLabel entity

/-- The members of the group that is addressed, before anything is done. -/
def members : Request → List EntityId
  | assign label _ _ | recover label => c.members label
  | speed entity _ | collective entity _ => c.hiveMembers entity

/-- The members that there is no going back for, if that is what is asked for. -/
def unbacked : Request → List EntityId
  | recover label => (c.members label).filter fun e => !c.isBacked e
  | _ => []

/-- **Reports are truthful**, whichever request they answer. -/
theorem truthful_run (request : Request) :
    Truthful (request.run c).1 (request.label c) (request.members c) (request.unbacked c) := by
  cases request with
  | assign label treeName skinName => exact c.truthful_assignBehavior label treeName skinName
  | recover label => exact c.truthful_recoverBackup label
  | speed entity multiplier => exact c.truthful_propagateSpeed entity multiplier
  | collective entity treeName => exact c.truthful_assignCollective entity treeName

/-- **Notices are true of the group.** That the group is empty is said exactly if the operation was
not aborted and addressed nobody, and then nothing else is said. Otherwise the notices name the
members that a recovery found without a backup, in order, and nobody for any other operation. All of
them are benign. -/
theorem notices_truthful (request : Request) (c : Coordinator Population) :
    let r := (request.run c).1
    ((∃ label, .emptyGroup label ∈ r.notices) ↔ r.aborted = none ∧ request.members c = []) ∧
      r.notices = (if r.aborted = none ∧ request.members c = [] then
          [.emptyGroup (request.label c)]
        else (request.unbacked c).map .missingPriorState) ∧
      ∀ notice ∈ r.notices, notice.isBenign = true := by
  have htrue := request.truthful_run c
  exact ⟨htrue.emptyGroup_mem_notices, htrue.notices_eq,
    fun _ hnotice => htrue.isBenign_of_mem_notices hnotice⟩

/-- Of a lone deer that was never assigned anything a recovery says that it has no backup, and of
a group that nobody is in that it is empty. -/
theorem loneDeer_noticed :
    ((recover "herd").run (Coordinator.loneDeer false)).1.notices = [.missingPriorState ⟨1⟩] ∧
      (Fault.missingPriorState ⟨1⟩).isBenign = true ∧
      ((recover "flock").run (Coordinator.loneDeer false)).1.notices = [.emptyGroup "flock"] := by
  obtain ⟨-, hherd, hbenign⟩ := notices_truthful (recover "herd") (Coordinator.loneDeer false)
  obtain ⟨-, hflock, -⟩ := notices_truthful (recover "flock") (Coordinator.loneDeer false)
  have hnotices := hherd.trans (if_neg (by decide))
  refine ⟨hnotices.trans (by decide), hbenign _ ?_, hflock.trans (if_pos (by decide))⟩
  rw [hnotices]
  decide

end Request

end Herd
