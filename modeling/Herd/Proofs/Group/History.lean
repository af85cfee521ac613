import Herd.Proofs.Group.Standing
import Herd.Proofs.World.Event

/-!
# Backups over whole histories

A history is a list of deeds: group operations, ticks that are saved back, and marks.
Its `takeovers` of an entity are what the entity ran just before each group assignment
that affected it, since the last recovery that did. The policy keeps one of them, the
first or the last (`BackupPolicy.kept`).

`Backed` says that the backup in the tag is the one that is kept. A history that starts
without backups keeps it so (`Backed.after`), so in the end a recovery puts the entity
back on exactly that behavior, or skips it if there is none
(`recoverBackup_after_history`).
-/

namespace Herd

open EntityStore SteadyStore

universe u

/-! ## Histories -/

namespace Event

/-- Whether an event is a deed: a group operation other than a teardown, a tick that is saved back,
or a mark. -/
def isDeed : Event.{u} → Bool
  | assign .. | recover _ | materialize _ | speed .. | collective .. => true
  | tick .. | tickCollective .. | mark .. => true
  | _ => false

/-- The takeovers of an entity once an event is over: an assignment that affects it is one more, and
a recovery that affects it ends them all. -/
def extend (e : EntityId) (c : Coordinator Population) :
    Event.{u} → List (Option Behavior) → List (Option Behavior)
  | assign label treeName skinName, trail =>
    if e ∈ (c.assignBehavior label treeName skinName).1.affected then trail ++ [c.runs? e]
    else trail
  | recover label, trail => if e ∈ (c.recoverBackup label).1.affected then [] else trail
  | _, trail => trail

/-- What an entity ran just before each group assignment that affected it, since the last recovery
that did; the oldest first, and after those of `trail`. -/
def takeovers (e : EntityId) (events : List Event.{u}) (c : Coordinator Population)
    (trail : List (Option Behavior)) : List (Option Behavior) :=
  account (extend e) events c trail

/-- A deed does not change the configuration. -/
theorem isDeed.ne_configure {event : Event.{u}} (h : event.isDeed = true) (library : Library)
    (settings : Settings) : event ≠ configure library settings := by
  rintro rfl
  cases h

end Event

/-! ## Backups -/

/-- The behavior that a policy keeps, of those that were taken over: the oldest, or the one that was
taken over last. -/
def BackupPolicy.kept : BackupPolicy → List (Option Behavior) → Option Behavior
  | .firstAssignmentWins, trail => trail.head?.join
  | .overwrite, trail => trail.getLast?.join

namespace BackupPolicy

variable {policy : BackupPolicy} {tag : GroupTag} {trail : List (Option Behavior)}
  {x : Option Behavior}

@[simp] theorem kept_nil (policy : BackupPolicy) : policy.kept [] = none := by
  cases policy <;> rfl

/-- What is captured is what is kept from then on. -/
theorem kept_append_of_captures (hmarked : tag.groupAssigned = true ↔ trail ≠ [])
    (h : Assignment.captures policy tag = true) : policy.kept (trail ++ [x]) = x := by
  cases policy with
  | overwrite =>
    show (trail ++ [x]).getLast?.join = x
    rw [List.getLast?_concat]
    rfl
  | firstAssignmentWins =>
    have hfalse : tag.groupAssigned = false := by simpa [Assignment.captures] using h
    have hnil : trail = [] := Decidable.byContradiction fun hne => by
      rw [hmarked.mpr hne] at hfalse
      cases hfalse
    rw [hnil]
    rfl

/-- What is not captured does not change what is kept. -/
theorem kept_append_of_not_captures (hmarked : tag.groupAssigned = true ↔ trail ≠ [])
    (h : ¬ Assignment.captures policy tag = true) :
    policy.kept (trail ++ [x]) = policy.kept trail := by
  cases policy with
  | overwrite => exact absurd rfl h
  | firstAssignmentWins =>
    have htrue : tag.groupAssigned = true := by simpa [Assignment.captures] using h
    cases trail with
    | nil => exact absurd rfl (hmarked.mp htrue)
    | cons y rest => rfl

end BackupPolicy

/-- What a backup keeps of a behavior. -/
def Behavior.saved (b : Behavior) : BehaviorTree × Snapshot := (b.tree, b.run.snapshot)

/-- Both halves of the backup, if there are both. -/
def GroupTag.backup? (tag : GroupTag) : Option (BehaviorTree × Snapshot) :=
  match tag.backupTree, tag.backupState with
  | some tree, some snapshot => some (tree, snapshot)
  | _, _ => none

/-- There is no backup unless there are both halves. -/
theorem GroupTag.hasBackup_eq_false {tag : GroupTag} :
    tag.hasBackup = false ↔ tag.backup? = none := by
  unfold hasBackup backup?
  cases tag.backupTree <;> cases tag.backupState <;> simp

theorem GroupTag.backup?_eq_some {tag : GroupTag} {tree : BehaviorTree} {snapshot : Snapshot} :
    tag.backup? = some (tree, snapshot) ↔
      tag.backupTree = some tree ∧ tag.backupState = some snapshot := by
  unfold backup?
  cases tag.backupTree <;> cases tag.backupState <;> simp

namespace Assignment

variable {policy : BackupPolicy} {tag : GroupTag} {b : Behavior} {previous : Option Behavior}

theorem backup?_assignedTag_none : (assignedTag policy tag none).backup? = tag.backup? := rfl

/-- Where the policy captures, the tag backs up the behavior that there was. -/
theorem backup?_assignedTag_of_captures (h : captures policy tag = true) :
    (assignedTag policy tag (some b)).backup? = some b.saved := by
  unfold assignedTag
  simp only [if_pos h]
  rfl

/-- Where the policy does not capture, the tag keeps its backup. -/
theorem backup?_assignedTag_of_not_captures (h : ¬ captures policy tag = true) :
    (assignedTag policy tag previous).backup? = tag.backup? := by
  cases previous with
  | none => rfl
  | some b =>
    unfold assignedTag
    simp only [if_neg h]
    rfl

end Assignment

/-- A backup that is kept: the tag of an entity holds what the policy keeps of the takeovers. -/
structure Backed (e : EntityId) (trail : List (Option Behavior)) (c : Coordinator Population) :
    Prop where
  coherent : ∀ b, c.runs? e = some b → b.tree = b.run.tree
  kept : ∀ b, c.settings.backupPolicy.kept trail = some b → b.tree = b.run.tree
  /-- What was taken over runs something ever after. -/
  runs : trail ≠ [] → ∃ b, c.runs? e = some b
  marked : ∀ tag, c.tag? e = some tag → (tag.groupAssigned = true ↔ trail ≠ [])
  backup : ∀ tag, c.tag? e = some tag →
    tag.backup? = (c.settings.backupPolicy.kept trail).map Behavior.saved

namespace Backed

variable {e : EntityId} {trail : List (Option Behavior)} {c c' : Coordinator Population}

/-- Only the standing of the entity counts. -/
theorem of_standing (h : Backed e trail c) (hsettings : c'.settings = c.settings)
    (hstanding : standing e c'.store = standing e c.store) : Backed e trail c' := by
  have hruns : c'.runs? e = c.runs? e := congrArg Prod.fst hstanding
  have htag : c'.tag? e = c.tag? e := congrArg Prod.snd hstanding
  refine ⟨?_, ?_, ?_, ?_, ?_⟩
  · rw [hruns]
    exact h.coherent
  · rw [hsettings]
    exact h.kept
  · rw [hruns]
    exact h.runs
  · rw [htag]
    exact h.marked
  · rw [htag, hsettings]
    exact h.backup

/-- A tick that brings the run on over its tree. -/
theorem tick (h : Backed e trail c) {b : Behavior} {run : Run} (hb : c.runs? e = some b)
    (hrun : run.tree = b.run.tree) (hsettings : c'.settings = c.settings)
    (hstanding : standing e c'.store = (some ⟨b.tree, run⟩, c.tag? e)) : Backed e trail c' := by
  have hruns : c'.runs? e = some ⟨b.tree, run⟩ := congrArg Prod.fst hstanding
  have htag : c'.tag? e = c.tag? e := congrArg Prod.snd hstanding
  refine ⟨fun b' hb' => ?_, ?_, fun _ => ⟨_, hruns⟩, ?_, ?_⟩
  · rw [hruns] at hb'
    cases hb'
    exact (h.coherent b hb).trans hrun.symm
  · rw [hsettings]
    exact h.kept
  · rw [htag]
    exact h.marked
  · rw [htag, hsettings]
    exact h.backup

/-- A group assignment takes over what the entity runs. -/
theorem assign (h : Backed e trail c) {tag : GroupTag} {tree : BehaviorTree}
    (htag : c.tag? e = some tag) (hsettings : c'.settings = c.settings)
    (hstanding : standing e c'.store = (some (.start e tree),
      some (Assignment.assignedTag c.settings.backupPolicy tag (c.runs? e)))) :
    Backed e (trail ++ [c.runs? e]) c' := by
  have hruns' : c'.runs? e = some (.start e tree) := congrArg Prod.fst hstanding
  have htag' : c'.tag? e = some (Assignment.assignedTag c.settings.backupPolicy tag (c.runs? e)) :=
    congrArg Prod.snd hstanding
  -- the mark tells whether this is the first takeover, which is all that the policies ask
  have hmarked := h.marked tag htag
  refine ⟨fun b hb => ?_, fun b hb => ?_, fun _ => ⟨_, hruns'⟩, fun tag' htag'' => ?_,
    fun tag' htag'' => ?_⟩
  · rw [hruns'] at hb
    cases hb
    rfl
  · rw [hsettings] at hb
    by_cases hcaptures : Assignment.captures c.settings.backupPolicy tag = true
    · rw [BackupPolicy.kept_append_of_captures hmarked hcaptures] at hb
      exact h.coherent b hb
    · rw [BackupPolicy.kept_append_of_not_captures hmarked hcaptures] at hb
      exact h.kept b hb
  · rw [htag'] at htag''
    cases htag''
    exact ⟨fun _ => List.append_ne_nil_of_right_ne_nil _ (List.cons_ne_nil _ _), fun _ => rfl⟩
  · rw [htag'] at htag''
    cases htag''
    rw [hsettings]
    by_cases hcaptures : Assignment.captures c.settings.backupPolicy tag = true
    · rw [BackupPolicy.kept_append_of_captures hmarked hcaptures]
      cases hruns : c.runs? e with
      | some b => exact Assignment.backup?_assignedTag_of_captures hcaptures
      | none =>
        -- what ran nothing was not taken over before
        have hnil : trail = [] := Decidable.byContradiction fun hne => by
          obtain ⟨b, hb⟩ := h.runs hne
          rw [hruns] at hb
          cases hb
        rw [Assignment.backup?_assignedTag_none, h.backup tag htag, hnil, BackupPolicy.kept_nil]
    · rw [BackupPolicy.kept_append_of_not_captures hmarked hcaptures,
        Assignment.backup?_assignedTag_of_not_captures hcaptures]
      exact h.backup tag htag

/-- A recovery that clears backups ends what was taken over. -/
theorem recover {tag : GroupTag} {tree : BehaviorTree} {run : Run} (hrun : run.tree = tree)
    (hstanding : standing e c'.store =
      (some ⟨tree, run⟩, some (Recovery.restoredTag true tag))) : Backed e [] c' := by
  have hruns' : c'.runs? e = some ⟨tree, run⟩ := congrArg Prod.fst hstanding
  have htag' : c'.tag? e = some (Recovery.restoredTag true tag) := congrArg Prod.snd hstanding
  refine ⟨fun b hb => ?_, fun b hb => ?_, fun h => absurd rfl h, fun tag' htag'' => ?_,
    fun tag' htag'' => ?_⟩
  · rw [hruns'] at hb
    cases hb
    exact hrun.symm
  · rw [BackupPolicy.kept_nil] at hb
    cases hb
  · rw [htag'] at htag''
    cases htag''
    exact ⟨fun h => absurd h Bool.false_ne_true, fun h => absurd rfl h⟩
  · rw [htag'] at htag''
    cases htag''
    rw [BackupPolicy.kept_nil]
    rfl

/-- Every deed keeps the backup. -/
theorem step (h : Backed e trail c) (hclear : c.settings.clearBackupOnRestore = true)
    {event : Event.{u}} (hdeed : event.isDeed = true) :
    Backed e (event.extend e c trail) (event.apply c) := by
  have hsettings := Event.settings_apply (Event.isDeed.ne_configure hdeed) c
  -- a deed that touches neither the behavior nor the tag of the entity
  have kept : (∀ kind : ComponentKind, kind.isStanding = true → ¬ event.Touches c e kind) →
      Backed e trail (event.apply c) := fun hplace =>
    h.of_standing hsettings (Prod.ext (Event.get?_apply (hplace .behavior rfl))
      (Event.get?_apply (hplace .groupTag rfl)))
  cases event with
  | assign label treeName skinName =>
    show Backed e (if e ∈ (c.assignBehavior label treeName skinName).1.affected then
      trail ++ [c.runs? e] else trail) _
    rcases c.standing_assignBehavior label treeName skinName e with
      ⟨hno, hsame⟩ | ⟨tree, tag, -, htag, hyes, hnew⟩
    · rw [if_neg hno]
      exact h.of_standing hsettings hsame
    · rw [if_pos hyes]
      exact h.assign htag hsettings hnew
  | recover label =>
    show Backed e (if e ∈ (c.recoverBackup label).1.affected then [] else trail) _
    rcases c.standing_recoverBackup label e with
      ⟨hno, hsame⟩ | ⟨tag, tree, snapshot, run, -, -, -, hrun, hyes, hnew⟩
    · rw [if_neg hno]
      exact h.of_standing hsettings hsame
    · have htree : run.tree = tree := by rw [Run.eq_of_resume hrun]
      rw [if_pos hyes]
      rw [hclear] at hnew
      exact recover htree hnew
  | tick handler x entity =>
    rcases standing_tickBehavior handler entity x c.store e with hsame | ⟨b, run, hb, hrun, hnew⟩
    · exact h.of_standing hsettings hsame
    · exact h.tick hb hrun hsettings hnew
  | materialize label => exact kept fun kind hkind hplace => nomatch hplace.2 ▸ hkind
  | speed entity multiplier => exact kept fun kind hkind hplace => nomatch hplace ▸ hkind
  | collective entity treeName => exact kept fun kind hkind hplace => nomatch hplace.2 ▸ hkind
  | tickCollective handler x entity => exact kept fun kind hkind hplace => nomatch hplace.2 ▸ hkind
  | mark entity readOnly => exact kept fun _ _ hplace => hplace
  | _ => cases hdeed

/-- So do deeds one after another, and they leave the settings as they are. -/
theorem after (h : Backed e trail c) (hclear : c.settings.clearBackupOnRestore = true)
    {deeds : List Event.{u}} (hdeeds : ∀ event ∈ deeds, event.isDeed = true) :
    (Event.after deeds c).settings = c.settings ∧
      Backed e (Event.takeovers e deeds c trail) (Event.after deeds c) := by
  have halong : Event.Along (fun _ event => event.isDeed = true) deeds c :=
    Event.along_of_forall (fun event hevent _ => hdeeds event hevent) c
  refine halong.account (fun trail c' => c'.settings = c.settings ∧ Backed e trail c') ?_ ⟨rfl, h⟩
  rintro trail c' event ⟨hsettings, hbacked⟩ hdeed
  exact ⟨(Event.settings_apply (Event.isDeed.ne_configure hdeed) c').trans hsettings,
    hbacked.step (hsettings ▸ hclear) hdeed⟩

end Backed

namespace Coordinator

/-- A world without backups: no tag has one or is marked, and every behavior runs its own tree. -/
def Pristine (c : Coordinator Population) : Prop :=
  ∀ e, (∀ tag, c.tag? e = some tag → tag.hasBackup = false ∧ tag.groupAssigned = false) ∧
    ∀ b, c.runs? e = some b → b.tree = b.run.tree

/-- Where nothing has happened yet, tags back up nothing. -/
theorem Pristine.backed {c : Coordinator Population} (h : c.Pristine) (e : EntityId) :
    Backed e [] c := by
  refine ⟨(h e).2, fun b hb => ?_, fun hne => absurd rfl hne, fun tag htag => ?_,
    fun tag htag => ?_⟩
  · rw [BackupPolicy.kept_nil] at hb
    cases hb
  · rw [((h e).1 tag htag).2]
    exact ⟨fun hmark => absurd hmark Bool.false_ne_true, fun hne => absurd rfl hne⟩
  · rw [BackupPolicy.kept_nil]
    exact GroupTag.hasBackup_eq_false.mp ((h e).1 tag htag).1

variable {c : Coordinator Population} {label : String} {e : EntityId}

/-- The recovery of a writable member with a backup. -/
theorem recoverBackup_of_backup {trail : List (Option Behavior)} {b : Behavior}
    (h : Backed e trail c) (hmember : e ∈ c.members label) (hwritable : e ∉ c.store.readOnly)
    (hkept : c.settings.backupPolicy.kept trail = some b) :
    ∃ tag, c.tag? e = some tag ∧ e ∈ (c.recoverBackup label).1.affected ∧
      (c.recoverBackup label).2.runs? e = some b ∧
      (c.recoverBackup label).2.tag? e =
        some (Recovery.restoredTag c.settings.clearBackupOnRestore tag) ∧
      ∀ kind, kind ≠ .behavior → kind ≠ .groupTag →
        get? e kind (c.recoverBackup label).2.store = get? e kind c.store := by
  obtain ⟨tag, htag⟩ := c.exists_tag_of_mem_members hmember
  have hbackup : tag.backup? = some b.saved := by rw [h.backup tag htag, hkept, Option.map_some]
  obtain ⟨htree, hsnapshot⟩ := GroupTag.backup?_eq_some.mp hbackup
  -- the snapshot was taken over the backed-up tree, so it resumes, and as the run it was taken of
  have hresume : Run.resume b.tree b.run.snapshot = .ok b.run := by
    rw [h.kept b hkept]
    exact b.run.resume_snapshot
  have hrefusal := Population.refusal_of_not_mem_readOnly htag hwritable
  obtain ⟨s₁, s₂, hswitch, hw, hw'⟩ := switchBehavior_of_admitted b
    (Recovery.restoredTag c.settings.clearBackupOnRestore tag) (hrefusal .behavior)
    (hrefusal .groupTag)
  have hturn := (Recovery.turn_of_backup c.settings.clearBackupOnRestore htag htree hsnapshot
    hresume).trans hswitch
  obtain ⟨habout, hagree⟩ := c.recoverBackup_of_mem hmember
  rw [hturn] at habout hagree
  refine ⟨tag, htag, ?_, ?_, ?_, fun kind hkind hkind' => ?_⟩
  · rw [← Tally.mem_affected_about, habout]
    exact List.mem_singleton_self e
  · exact (hagree.components .behavior).symm.trans
      ((hw'.kinds .behavior (by decide)).trans hw.written)
  · exact (hagree.components .groupTag).symm.trans hw'.written
  · exact (hagree.components kind).symm.trans ((hw'.kinds kind hkind').trans (hw.kinds kind hkind))

/-- The recovery of a member without a backup. -/
theorem recoverBackup_of_no_backup {trail : List (Option Behavior)} (h : Backed e trail c)
    (hmember : e ∈ c.members label) (hkept : c.settings.backupPolicy.kept trail = none) :
    (e, .missingPriorState) ∈ (c.recoverBackup label).1.skipped ∧
      ∀ kind, get? e kind (c.recoverBackup label).2.store = get? e kind c.store := by
  obtain ⟨tag, htag⟩ := c.exists_tag_of_mem_members hmember
  have hbackup : tag.backup? = none := by rw [h.backup tag htag, hkept, Option.map_none]
  have hturn := Recovery.turn_of_no_backup c.settings.clearBackupOnRestore htag
    (GroupTag.hasBackup_eq_false.mpr hbackup)
  obtain ⟨habout, hagree⟩ := c.recoverBackup_of_mem hmember
  rw [hturn] at habout hagree
  refine ⟨?_, fun kind => (hagree.components kind).symm⟩
  have hskipped : (e, .missingPriorState) ∈ ((c.recoverBackup label).1.about e).skipped := by
    rw [habout]
    exact List.mem_singleton_self _
  exact (List.mem_filter.mp hskipped).1

/-- **Recovery over whole histories**: after any history from a world without backups, a writable
member goes back to exactly the behavior that the policy keeps of those that were taken over since
its last recovery, and its tag is as before the group took over; if there is none, it is skipped and
stays as it is. -/
theorem recoverBackup_after_history {c₀ : Coordinator Population} (hpristine : c₀.Pristine)
    (hclear : c₀.settings.clearBackupOnRestore = true) (deeds : List Event.{u})
    (hdeeds : ∀ event ∈ deeds, event.isDeed = true) (label : String) (e : EntityId)
    (hmember : e ∈ (Event.after deeds c₀).members label)
    (hwritable : e ∉ (Event.after deeds c₀).store.readOnly) :
    let c := Event.after deeds c₀
    let report := (c.recoverBackup label).1
    let c' := (c.recoverBackup label).2
    match c₀.settings.backupPolicy.kept (Event.takeovers e deeds c₀ []) with
    | some b =>
      e ∈ report.affected ∧ c'.runs? e = some b ∧
        (∃ tag, c.tag? e = some tag ∧ c'.tag? e = some ⟨tag.label, none, none, false⟩) ∧
        ∀ kind, kind ≠ .behavior → kind ≠ .groupTag → get? e kind c'.store = get? e kind c.store
    | none =>
      (e, .missingPriorState) ∈ report.skipped ∧
        ∀ kind, get? e kind c'.store = get? e kind c.store := by
  intro c report c'
  -- the settings stay, so that the policy is the one that was there at the start
  obtain ⟨hsettings, hbacked⟩ := (hpristine.backed e).after hclear hdeeds
  cases hkept : c₀.settings.backupPolicy.kept (Event.takeovers e deeds c₀ []) with
  | some b =>
    rw [← hsettings] at hkept hclear
    obtain ⟨tag, htag, haffected, hruns, htag', hkinds⟩ :=
      recoverBackup_of_backup hbacked hmember hwritable hkept
    rw [hclear] at htag'
    exact ⟨haffected, hruns, ⟨tag, htag, htag'⟩, hkinds⟩
  | none =>
    rw [← hsettings] at hkept
    exact recoverBackup_of_no_backup hbacked hmember hkept

/-- A deer that grazes on its own, in a herd of its own. -/
def grazingDeer : Coordinator Population where
  store :=
    let deer := { EntityRecord.ofName "deer" with
      groupTag := some (.ofLabel "herd")
      behavior := some (.start ⟨1⟩ ⟨⟨none, "graze"⟩, .leaf (.action "eat")⟩) }
    (Population.empty.spawn deer).2
  library := Library.empty.addTree ⟨⟨none, "critter"⟩, .leaf (.action "walk")⟩
  settings := .standard
  registry := .empty
  recordCount := 0

theorem pristine_grazingDeer : grazingDeer.Pristine := by
  intro e
  by_cases he : e = ⟨1⟩
  · subst he
    refine ⟨fun tag htag => ?_, fun b hb => ?_⟩
    · cases htag
      exact ⟨rfl, rfl⟩
    · cases hb
      rfl
  · have hfind : grazingDeer.store.records.find? e = none :=
      (Table.find?_insert_of_ne _ he _).trans (Table.find?_empty e)
    have hnone : ∀ kind, (get? e kind grazingDeer.store : Option kind.Payload) = none := by
      intro kind
      show (grazingDeer.store.records.find? e).bind (·.get? kind) = none
      rw [hfind]
      rfl
    refine ⟨fun tag htag => ?_, fun b hb => ?_⟩
    · cases (hnone .groupTag).symm.trans htag
    · cases (hnone .behavior).symm.trans hb

/-- The deer is taken over, may not be written while its group is assigned again, and is taken over
once more; in the end it grazes as it did. -/
theorem grazingDeer_recovers :
    let deeds : List Event.{0} := [.assign "herd" "critter" none, .mark ⟨1⟩ true,
      .assign "herd" "critter" none, .mark ⟨1⟩ false, .assign "herd" "critter" none]
    ((Event.after deeds grazingDeer).recoverBackup "herd").2.runs? ⟨1⟩ =
      some (.start ⟨1⟩ ⟨⟨none, "graze"⟩, .leaf (.action "eat")⟩) := by
  intro deeds
  have hkept : grazingDeer.settings.backupPolicy.kept (Event.takeovers ⟨1⟩ deeds grazingDeer []) =
      some (.start ⟨1⟩ ⟨⟨none, "graze"⟩, .leaf (.action "eat")⟩) := rfl
  have hrecovered := recoverBackup_after_history pristine_grazingDeer rfl deeds (by decide) "herd"
    ⟨1⟩ (by decide) (by decide)
  dsimp only at hrecovered
  rw [hkept] at hrecovered
  exact hrecovered.2.1

end Coordinator

end Herd
