import Herd.Proofs.Group.Footprint
import Herd.Proofs.Group.Isolation
import Herd.Proofs.Group.Standing

/-!
# Operations on different groups commute

Two groups whose labels do not match have no member in common. An operation on one of them leaves
the members of the other as they were (`GroupOperation.agreeAt_run`), and so what the operation on
the other is to them; it also leaves every tag its label, and so both groups their members
(`GroupOperation.members_run`). So each reports the same, whether it comes first or second
(`GroupOperation.report_congr`), and at every entity the two orders come to the same.

In a population this is all there is to compare, since writes make no entity, take none away, and
move no mark (`Population.sameRoll_of_written`).
-/

namespace Herd

open EntityStore SteadyStore

/-- What is done to a group: an assignment to its members, or the recovery of their backups. -/
inductive GroupOperation
  | assign (label treeName : String) (skinName : Option String)
  | recover (label : String)

namespace GroupOperation

/-- The group that it is done to. -/
def label : GroupOperation → String
  | assign label _ _ => label
  | recover label => label

/-- Do it, and report. -/
def run {σ : Type} [EntityStore σ] (c : Coordinator σ) :
    GroupOperation → Report × Coordinator σ
  | assign label treeName skinName => c.assignBehavior label treeName skinName
  | recover label => c.recoverBackup label

end GroupOperation

/-! ## Labels of tags -/

/-- No assignment changes the label of a tag. -/
theorem Assignment.label_assignedTag (policy : BackupPolicy) (tag : GroupTag)
    (previous : Option Behavior) : (assignedTag policy tag previous).label = tag.label := by
  unfold assignedTag
  cases previous with
  | none => rfl
  | some b => dsimp only; split <;> rfl

theorem Recovery.label_restoredTag (clear : Bool) (tag : GroupTag) :
    (restoredTag clear tag).label = tag.label := by
  cases clear <;> rfl

section Steady

variable {σ : Type} [EntityStore σ] [SteadyStore σ] {e : EntityId} {s t : σ}

/-- A pass tallies the same on stores that are the same to all of its entities. -/
theorem Tally.pass_congr {turn : EntityId → σ → Tally × σ} (hturn : ∀ e, LocalAt e (turn e)) :
    ∀ {es : List EntityId} {s t : σ}, (∀ e ∈ es, AgreeAt e s t) →
      (pass turn es s).1 = (pass turn es t).1 := by
  intro es
  induction es with
  | nil => exact fun _ => rfl
  | cons d rest ih =>
    intro s t h
    obtain ⟨htally, hafter⟩ := (hturn d).agree (h d List.mem_cons_self)
    have hrest : ∀ e ∈ rest, AgreeAt e (turn d s).2 (turn d t).2 := by
      intro e he
      by_cases hed : e = d
      · exact hed ▸ hafter
      · exact (((hturn d).keeps s).others e hed).symm.trans
          ((h e (List.mem_cons_of_mem d he)).trans (((hturn d).keeps t).others e hed))
    show (turn d s).1 ++ (pass turn rest (turn d s).2).1 =
      (turn d t).1 ++ (pass turn rest (turn d t).2).1
    rw [htally, ih hrest]

namespace GroupOperation

variable {a b : GroupOperation} {c d : Coordinator σ}

/-! ## One operation -/

omit [SteadyStore σ] in
/-- The store is all that an operation changes. -/
theorem snd_run (a : GroupOperation) (c : Coordinator σ) :
    (a.run c).2 = { c with store := (a.run c).2.store } := by
  cases a with
  | assign label treeName skinName =>
    simp only [run, Coordinator.assignBehavior]
    cases c.library.tree treeName <;> rfl
  | recover label => rfl

omit [SteadyStore σ] in
/-- An operation on a group writes to its members only. -/
theorem written_run (a : GroupOperation) (c : Coordinator σ) :
    Written (fun e _ => e ∈ c.members a.label) c.store (a.run c).2.store := by
  cases a with
  | assign label treeName skinName =>
    exact (c.assignBehavior_written label treeName skinName).mono And.left
  | recover label => exact (c.recoverBackup_written label).mono And.left

/-- Who is no member is left alone. -/
theorem agreeAt_run (he : e ∉ c.members a.label) : AgreeAt e c.store (a.run c).2.store := by
  cases a with
  | assign label treeName skinName => exact (c.assignBehavior_of_not_mem treeName skinName he).2
  | recover label => exact (c.recoverBackup_of_not_mem he).2

/-- What becomes of an entity is settled by its own components and refusals. -/
theorem agreeAt_run_of_agreeAt (a : GroupOperation) (hlibrary : c.library = d.library)
    (hsettings : c.settings = d.settings) (h : AgreeAt e c.store d.store) :
    AgreeAt e (a.run c).2.store (a.run d).2.store := by
  cases a with
  | assign label treeName skinName =>
    exact (Coordinator.agree_assignBehavior hlibrary hsettings h label treeName skinName).1
  | recover label => exact (Coordinator.agree_recoverBackup hsettings h label).1

/-- What is reported is settled by who the members are, and by their components and refusals. -/
theorem report_congr (hlibrary : c.library = d.library) (hsettings : c.settings = d.settings)
    (hmembers : d.members a.label = c.members a.label)
    (h : ∀ e ∈ c.members a.label, AgreeAt e c.store d.store) : (a.run c).1 = (a.run d).1 := by
  cases a with
  | assign label treeName skinName =>
    simp only [run, Coordinator.assignBehavior, ← hlibrary, ← hsettings]
    cases c.library.tree treeName with
    | error fault => rfl
    | ok tree =>
      simp only [GroupOperation.label] at hmembers h
      simp only [hmembers, Tally.pass_congr (Assignment.turn_local _ tree _) h]
  | recover label =>
    simp only [GroupOperation.label] at hmembers h
    simp only [run, Coordinator.recoverBackup, ← hsettings, hmembers,
      Tally.pass_congr (Recovery.turn_local _) h]

/-- Every tag keeps its label. -/
theorem tagLabel_run (a : GroupOperation) (c : Coordinator σ) (e : EntityId) :
    ((a.run c).2.tag? e).map (·.label) = (c.tag? e).map (·.label) := by
  cases a with
  | assign label treeName skinName =>
    rcases c.standing_assignBehavior label treeName skinName e with
      ⟨-, h⟩ | ⟨tree, tag, -, htag, -, h⟩
    · exact congrArg (·.2.map (·.label)) h
    · refine (congrArg (·.2.map (·.label)) h).trans ?_
      rw [htag]
      exact congrArg some (Assignment.label_assignedTag _ tag _)
  | recover label =>
    rcases c.standing_recoverBackup label e with ⟨-, h⟩ | ⟨tag, _, _, _, htag, -, -, -, -, h⟩
    · exact congrArg (·.2.map (·.label)) h
    · refine (congrArg (·.2.map (·.label)) h).trans ?_
      rw [htag]
      exact congrArg some (Recovery.label_restoredTag _ tag)

/-- Every group keeps its members. -/
theorem members_run (a : GroupOperation) (c : Coordinator σ) (label : String) :
    (a.run c).2.members label = c.members label :=
  membersOf_congr (a.tagLabel_run c) label

/-! ## Two operations -/

/-- Who is no member of the first group is the same whichever operation comes first. -/
theorem agreeAt_run_run (b : GroupOperation) (he : e ∉ c.members a.label) :
    AgreeAt e (b.run (a.run c).2).2.store (a.run (b.run c).2).2.store := by
  have hfirst : AgreeAt e (b.run (a.run c).2).2.store (b.run c).2.store :=
    b.agreeAt_run_of_agreeAt (by rw [a.snd_run]) (by rw [a.snd_run]) (agreeAt_run he).symm
  have he' : e ∉ (b.run c).2.members a.label := by rwa [b.members_run]
  exact hfirst.trans (agreeAt_run he')

variable (h : labelsMatch a.label b.label = false)
include h

/-- Every entity is the same whichever operation comes first. -/
theorem agreeAt_either_order (c : Coordinator σ) (e : EntityId) :
    AgreeAt e (b.run (a.run c).2).2.store (a.run (b.run c).2).2.store := by
  -- an entity is a member of one group at most, and the operation on the other leaves it alone
  by_cases he : e ∈ c.members a.label
  · exact (agreeAt_run_run a (disjoint_membersOf h c.store he)).symm
  · exact agreeAt_run_run b he

/-- The second operation reports what it would report without the first. -/
theorem report_second (c : Coordinator σ) : (b.run (a.run c).2).1 = (b.run c).1 := by
  refine (report_congr (by rw [a.snd_run]) (by rw [a.snd_run]) (a.members_run c b.label) ?_).symm
  exact fun e he => agreeAt_run fun he' => disjoint_membersOf h c.store he' he

end GroupOperation

end Steady

namespace GroupOperation

/-- **Operations on different groups commute**: if the labels of two groups do not match, then to
assign a behavior to one or recover its backups, and to do either to the other, comes to the same
in both orders, whichever entities are marked. The coordinator is the same in the end, with every
component, name and mark in its store, and each operation reports the same. -/
theorem commute {a b : GroupOperation} (h : labelsMatch a.label b.label = false)
    (c : Coordinator Population) :
    (b.run (a.run c).2).2 = (a.run (b.run c).2).2 ∧
      (a.run (b.run c).2).1 = (a.run c).1 ∧ (b.run (a.run c).2).1 = (b.run c).1 := by
  have h' : labelsMatch b.label a.label = false := by
    rw [← Bool.not_eq_true] at h ⊢
    exact fun hmatch => h (labelsMatch_equivalence.symm hmatch)
  refine ⟨?_, report_second h' c, report_second h c⟩
  have hroll : ∀ x y : GroupOperation, Population.SameRoll c.store (x.run (y.run c).2).2.store :=
    fun x y => (Population.sameRoll_of_written (y.written_run c)).trans
      (Population.sameRoll_of_written (x.written_run _))
  have hstore : (b.run (a.run c).2).2.store = (a.run (b.run c).2).2.store :=
    ((hroll a b).symm.trans (hroll b a)).eq_of_components fun e =>
      (agreeAt_either_order h c e).components
  have hrest : ∀ x y : GroupOperation,
      (x.run (y.run c).2).2 = { c with store := (x.run (y.run c).2).2.store } :=
    fun x y => (x.snd_run (y.run c).2).trans
      (congrArg (fun d : Coordinator Population =>
        { d with store := (x.run (y.run c).2).2.store }) (y.snd_run c))
  rw [hrest b a, hrest a b, hstore]

/-- Two herds whose labels differ in one accent. A member of the second is marked. -/
def accentedHerds : Coordinator Population where
  store :=
    let grazing (label : String) (e : EntityId) := { EntityRecord.ofName "elk" with
      groupTag := some (.ofLabel label)
      behavior := some (.start e ⟨⟨none, "graze"⟩, .leaf (.action "eat")⟩) }
    let p := (Population.empty.spawn (grazing "\u0115lk" ⟨1⟩)).2
    let p := (p.spawn (grazing "elk" ⟨2⟩)).2
    ((p.spawn (grazing "Elk" ⟨3⟩)).2.spawn (grazing "\u0114LK" ⟨4⟩)).2.setReadOnly ⟨2⟩ true
  library := Library.empty.addTree ⟨⟨none, "critter"⟩, .leaf (.action "walk")⟩
  settings := .standard
  registry := .empty
  recordCount := 0

/-- Both herds are assigned, and the marked member fails, whichever herd comes first. -/
theorem accentedHerds_commute :
    let a : GroupOperation := .assign "\u0114lk" "critter" none
    let b : GroupOperation := .assign "ELK" "critter" none
    (a.run accentedHerds).1.affected = [⟨1⟩, ⟨4⟩] ∧
      (b.run (a.run accentedHerds).2).1.affected = [⟨3⟩] ∧
      (b.run (a.run accentedHerds).2).1.failures.map (·.1) = [⟨2⟩] ∧
      (b.run (a.run accentedHerds).2).2 = (a.run (b.run accentedHerds).2).2 ∧
      (a.run (b.run accentedHerds).2).1 = (a.run accentedHerds).1 := by
  intro a b
  have hlabels : labelsMatch a.label b.label = false := by decide
  obtain ⟨hstore, hreport, -⟩ := commute hlabels accentedHerds
  exact ⟨by decide, by decide, by decide, hstore, hreport⟩

end GroupOperation

end Herd
