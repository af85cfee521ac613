import Herd.Proofs.Group.Turn
import Herd.Proofs.World.Membership

/-!
# Members are isolated from one another

Whether an entity is a member is settled by its own tag (`AgreeAt.mem_membersOf`), and what an
operation is to it by its own components and refusals. So two stores that agree at the entity
still do so after a group assignment or a recovery, and the reports say the same about it
(`Coordinator.agree_assignBehavior`, `Coordinator.agree_recoverBackup`), whatever becomes of the
other members.

Populations agree at an entity if they have the same record of it and both mark it or neither
does (`Population.agreeAt`).
-/

namespace Herd

open EntityStore SteadyStore

section Steady

variable {σ : Type} [EntityStore σ] [SteadyStore σ] {e : EntityId}

namespace Coordinator

variable {c d : Coordinator σ} (hlibrary : c.library = d.library)
  (hsettings : c.settings = d.settings) (h : AgreeAt e c.store d.store)

include hlibrary hsettings h

/-- A group assignment is to an entity what its own components and refusals make it. -/
theorem agree_assignBehavior (label treeName : String) (skinName : Option String) :
    AgreeAt e (c.assignBehavior label treeName skinName).2.store
        (d.assignBehavior label treeName skinName).2.store ∧
      (c.assignBehavior label treeName skinName).1.about e =
        (d.assignBehavior label treeName skinName).1.about e := by
  by_cases hmember : e ∈ c.members label
  · have hmember' : e ∈ d.members label := (h.mem_membersOf label).mp hmember
    cases htree : c.library.tree treeName with
    | error fault =>
      have htree' : d.library.tree treeName = .error fault := hlibrary ▸ htree
      simp only [assignBehavior, htree, htree']
      exact ⟨h, trivial⟩
    | ok tree =>
      have htree' : d.library.tree treeName = .ok tree := hlibrary ▸ htree
      obtain ⟨hentries, hafter⟩ := c.assignBehavior_of_mem skinName htree hmember
      obtain ⟨hentries', hafter'⟩ := d.assignBehavior_of_mem skinName htree' hmember'
      -- both are the turn of `e`, under the same settings and with the same skin
      rw [← hlibrary, ← hsettings] at hentries' hafter'
      obtain ⟨htally, hturn⟩ := (Assignment.turn_local c.settings.backupPolicy tree
        (skinName.bind c.library.skin?) e).agree h
      exact ⟨hafter.symm.trans (hturn.trans hafter'), by rw [hentries, hentries', htally]⟩
  · have hmember' : e ∉ d.members label := mt (h.mem_membersOf label).mpr hmember
    obtain ⟨hentries, hafter⟩ := c.assignBehavior_of_not_mem treeName skinName hmember
    obtain ⟨hentries', hafter'⟩ := d.assignBehavior_of_not_mem treeName skinName hmember'
    exact ⟨hafter.symm.trans (h.trans hafter'), by rw [hentries, hentries']⟩

omit hlibrary in
/-- A recovery is to an entity what its own components and refusals make it. -/
theorem agree_recoverBackup (label : String) :
    AgreeAt e (c.recoverBackup label).2.store (d.recoverBackup label).2.store ∧
      (c.recoverBackup label).1.about e = (d.recoverBackup label).1.about e := by
  by_cases hmember : e ∈ c.members label
  · have hmember' : e ∈ d.members label := (h.mem_membersOf label).mp hmember
    obtain ⟨hentries, hafter⟩ := c.recoverBackup_of_mem hmember
    obtain ⟨hentries', hafter'⟩ := d.recoverBackup_of_mem hmember'
    rw [← hsettings] at hentries' hafter'
    obtain ⟨htally, hturn⟩ := (Recovery.turn_local c.settings.clearBackupOnRestore e).agree h
    exact ⟨hafter.symm.trans (hturn.trans hafter'), by rw [hentries, hentries', htally]⟩
  · have hmember' : e ∉ d.members label := mt (h.mem_membersOf label).mpr hmember
    obtain ⟨hentries, hafter⟩ := c.recoverBackup_of_not_mem hmember
    obtain ⟨hentries', hafter'⟩ := d.recoverBackup_of_not_mem hmember'
    exact ⟨hafter.symm.trans (h.trans hafter'), by rw [hentries, hentries']⟩

end Coordinator

end Steady

/-! ## Populations -/

/-- Populations with the same record and the same mark of an entity agree at it. -/
theorem Population.agreeAt {p q : Population} {e : EntityId}
    (hrecord : p.records.find? e = q.records.find? e) (hmark : e ∈ p.readOnly ↔ e ∈ q.readOnly) :
    AgreeAt e p q := by
  refine ⟨fun kind => ?_, fun _ => ?_⟩
  · show (p.records.find? e).bind (·.get? kind) = (q.records.find? e).bind (·.get? kind)
    rw [hrecord]
  · have hin : p.contains e = q.contains e := by
      rw [contains, contains, Table.contains, Table.contains, hrecord]
    show p.refusalOf e = q.refusalOf e
    simp only [refusalOf, hmark, hin]

namespace Coordinator

/-- Two operations come to the same for an entity: it has the same components after both, and the
same entries in both reports. -/
structure SameFor (e : EntityId) (a b : Report × Coordinator Population) : Prop where
  components : ∀ kind : ComponentKind, get? e kind a.2.store = get? e kind b.2.store
  entries : a.1.about e = b.1.about e

/-- **Members are isolated from one another**: in two populations that have the same record of an
entity and both mark it or neither, a group assignment and a recovery come to the same for it. The
other entities may be any, and their writes be refused or not. -/
theorem isolated_from_others {c d : Coordinator Population} {e : EntityId}
    (hlibrary : c.library = d.library) (hsettings : c.settings = d.settings)
    (hrecord : c.store.records.find? e = d.store.records.find? e)
    (hmark : e ∈ c.store.readOnly ↔ e ∈ d.store.readOnly) :
    (∀ label treeName skinName, SameFor e (c.assignBehavior label treeName skinName)
      (d.assignBehavior label treeName skinName)) ∧
    ∀ label, SameFor e (c.recoverBackup label) (d.recoverBackup label) := by
  have h : AgreeAt e c.store d.store := Population.agreeAt hrecord hmark
  refine ⟨fun label treeName skinName => ?_, fun label => ?_⟩
  · obtain ⟨hafter, hentries⟩ :=
      agree_assignBehavior hlibrary hsettings h label treeName skinName
    exact ⟨hafter.components, hentries⟩
  · obtain ⟨hafter, hentries⟩ := agree_recoverBackup hsettings h label
    exact ⟨hafter.components, hentries⟩

/-- Two grazing deer of a herd, the second of them marked or not. -/
def grazingPair (marked : Bool) : Coordinator Population where
  store :=
    let deer (e : EntityId) := { EntityRecord.ofName "deer" with
      groupTag := some (.ofLabel "herd")
      behavior := some (.start e ⟨⟨none, "graze"⟩, .leaf (.action "eat")⟩) }
    ((Population.empty.spawn (deer ⟨1⟩)).2.spawn (deer ⟨2⟩)).2.setReadOnly ⟨2⟩ marked
  library := Library.empty.addTree ⟨⟨none, "critter"⟩, .leaf (.action "walk")⟩
  settings := .standard
  registry := .empty
  recordCount := 0

/-- That the second refuses its writes is nothing to the first. -/
theorem grazingPair_isolated :
    ((grazingPair true).assignBehavior "herd" "critter" none).1.affected ≠
      ((grazingPair false).assignBehavior "herd" "critter" none).1.affected ∧
    SameFor ⟨1⟩ ((grazingPair true).assignBehavior "herd" "critter" none)
      ((grazingPair false).assignBehavior "herd" "critter" none) ∧
    SameFor ⟨1⟩ ((grazingPair true).recoverBackup "herd")
      ((grazingPair false).recoverBackup "herd") := by
  obtain ⟨hassign, hrecover⟩ := isolated_from_others (c := grazingPair true)
    (d := grazingPair false) (e := ⟨1⟩) rfl rfl rfl (by decide)
  exact ⟨by decide, hassign "herd" "critter" none, hrecover "herd"⟩

end Coordinator

end Herd
