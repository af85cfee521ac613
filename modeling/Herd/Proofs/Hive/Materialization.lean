import Herd.Proofs.World.Numbering

/-!
# A hivemind is a snapshot

To make a hivemind an entity is created, the group is listed, and the list is saved with the entity.
The new entity has no tag, so it changes no group; and it is new, so whatever is done to it is done
to nobody else. A save that is admitted leaves the population with one entity more
(`Population.records_update_create`), and one that is refused, which happens if the next number was
marked read-only before it was given out, leaves it as it was (`Population.records_drop_create`).
-/

namespace Herd

open EntityStore

namespace Population

variable (name : String) (p : Population)

/-- Setting a component of an entity that was just created. -/
theorem records_update_create (kind : ComponentKind) (x : Option kind.Payload) :
    ((create name p).2.update (create name p).1 kind x).records =
      p.records.insert (create name p).1 ((EntityRecord.ofName name).set kind x) := by
  refine Table.ext_find? fun e => ?_
  show ((p.records.insert (create name p).1 (.ofName name)).modify _ _).find? e = _
  by_cases he : e = (create name p).1
  · subst he
    rw [Table.find?_modify_self, Table.find?_insert_self, Table.find?_insert_self, Option.map_some]
  · rw [Table.find?_modify_of_ne _ he, Table.find?_insert_of_ne _ he, Table.find?_insert_of_ne _ he]

/-- Taking an entity that was just created off the records. -/
theorem records_drop_create :
    ((create name p).2.drop (create name p).1).records = p.records := by
  refine Table.ext_find? fun e => ?_
  show ((p.records.insert (create name p).1 (.ofName name)).erase _).find? e = _
  by_cases he : e = (create name p).1
  · subst he
    rw [Table.find?_erase_self]
    exact (find?_next p).symm
  · rw [Table.find?_erase_of_ne _ he, Table.find?_insert_of_ne _ he]

end Population

/-- A hivemind has the label it is made with. -/
theorem Hivemind.label_ofMembers (label : String) (members : List EntityId) :
    (ofMembers label members).label = label := by
  have hinsert : ∀ (hive : Hivemind) (e : EntityId), (hive.insert e).label = hive.label := by
    intro hive e
    unfold insert
    split <;> rfl
  -- From any hivemind that is being filled, so that the induction is on what is still to come.
  have key : ∀ (rest : List EntityId) (hive : Hivemind),
      (rest.foldl insert hive).label = hive.label := by
    intro rest
    induction rest with
    | nil => exact fun hive => rfl
    | cons e rest ih => exact fun hive => (ih (hive.insert e)).trans (hinsert hive e)
  exact key members (empty label)

namespace Coordinator

variable (c : Coordinator Population) (label : String)

/-- The population with an entity for a new hivemind. -/
def withHivemindEntity : Population := (EntityStore.create hivemindEntityName c.store).2

/-- The hivemind of a group at this moment. -/
def hivemindOf : Hivemind := .ofMembers label (c.members label)

theorem create_hivemindEntity : EntityStore.create hivemindEntityName c.store =
    (c.nextEntity, c.withHivemindEntity) :=
  rfl

/-- The new entity has no tag. -/
theorem membersOf_withHivemindEntity : membersOf label c.withHivemindEntity = c.members label :=
  membersOf_congr (fun e => by rw [withHivemindEntity, Population.get?_create]) label

variable {c}

/-- A new hivemind is saved, if its number is not marked. -/
theorem materializeHivemind_of_unmarked (h : c.nextEntity ∉ c.store.readOnly) :
    c.materializeHivemind label = (.ok c.nextEntity,
      { c with
        store := c.withHivemindEntity.update c.nextEntity .hivemind
          (some (c.hivemindOf label)) }) := by
  have hwritable : c.withHivemindEntity.writable c.nextEntity =
      .ok (.ofName hivemindEntityName) := by
    have hfind : c.withHivemindEntity.records.find? c.nextEntity =
        some (.ofName hivemindEntityName) := Table.find?_insert_self _ _ _
    have hmark : c.nextEntity ∉ c.withHivemindEntity.readOnly := h
    rw [Population.writable, if_neg hmark, hfind]
  have hsave : save c.nextEntity .hivemind
      (Hivemind.ofMembers label (membersOf label c.withHivemindEntity)) c.withHivemindEntity =
        (.ok (), c.withHivemindEntity.update c.nextEntity .hivemind
          (some (c.hivemindOf label))) := by
    simp only [save, hwritable, membersOf_withHivemindEntity, hivemindOf]
  simp only [materializeHivemind, create_hivemindEntity, hsave]

/-- A new hivemind is refused, if its number is marked. -/
theorem materializeHivemind_of_marked (h : c.nextEntity ∈ c.store.readOnly) :
    c.materializeHivemind label =
      (.error (StoreFault.rejected c.nextEntity Population.readOnlyReason).toFault,
        { c with store := c.withHivemindEntity.drop c.nextEntity }) := by
  have hmark : c.nextEntity ∈ c.withHivemindEntity.readOnly := h
  have hsave : save c.nextEntity .hivemind
      (Hivemind.ofMembers label (membersOf label c.withHivemindEntity)) c.withHivemindEntity =
        (.error (.rejected c.nextEntity Population.readOnlyReason), c.withHivemindEntity) := by
    simp only [save, Population.writable, if_pos hmark]
  simp only [materializeHivemind, create_hivemindEntity, hsave]
  rfl

/-- From `c` to `c'` the entity `h` was made the hivemind of a group. -/
structure Materialized (label : String) (h : EntityId) (c c' : Coordinator Population) : Prop where
  new : c.store.contains h = false
  /-- It carries the members that the group has, none of them twice, and nothing else. -/
  carries : ∃ hive : Hivemind, hive.label = label ∧ hive.members = c.members label ∧
    hive.members.Nodup ∧ h ∉ hive.members ∧
    c'.store.records.find? h =
      some { EntityRecord.ofName hivemindEntityName with hivemind := some hive }
  /-- No group has changed. -/
  members : ∀ other, c'.members other = c.members other
  others : ∀ e, e ≠ h → c'.store.records.find? e = c.store.records.find? e
  readOnly : c'.store.readOnly = c.store.readOnly
  rest : c' = { c with store := c'.store }

/-- The hivemind that was made. -/
theorem Materialized.hivemind?_eq {label : String} {h : EntityId} {c c' : Coordinator Population}
    (hmade : Materialized label h c c') :
    ∃ hive, c'.hivemind? h = some hive ∧ hive.members = c.members label := by
  obtain ⟨hive, -, hmembers, -, -, hfind⟩ := hmade.carries
  refine ⟨hive, ?_, hmembers⟩
  show (c'.store.records.find? h).bind _ = _
  rw [hfind]
  rfl

/-- The record of an entity that carries a new hivemind. -/
theorem find?_of_unmarked (c : Coordinator Population) (label : String) (e : EntityId) :
    (c.withHivemindEntity.update c.nextEntity .hivemind
      (some (c.hivemindOf label))).records.find? e =
        if e = c.nextEntity then
          some { EntityRecord.ofName hivemindEntityName with hivemind := some (c.hivemindOf label) }
        else c.store.records.find? e := by
  have hrecords := Population.records_update_create hivemindEntityName c.store .hivemind
    (some (c.hivemindOf label))
  refine (congrArg (Table.find? · e) hrecords).trans ?_
  split
  · next he =>
    rw [he]
    exact Table.find?_insert_self _ _ _
  · next he => exact Table.find?_insert_of_ne _ he _

/-- **A hivemind that is made is a snapshot** of its group, and changes nothing. -/
theorem materialized_of_ok {c c' : Coordinator Population} {label : String} {h : EntityId}
    (hok : c.materializeHivemind label = (.ok h, c')) : Materialized label h c c' := by
  by_cases hmark : c.nextEntity ∈ c.store.readOnly
  · rw [materializeHivemind_of_marked label hmark] at hok
    cases hok
  rw [materializeHivemind_of_unmarked label hmark] at hok
  cases hok
  have hnext : c.store.records.find? c.nextEntity = none := Population.find?_next c.store
  have hnew : c.store.contains c.nextEntity = false := by
    rw [Population.contains, Table.contains, hnext, Option.isSome_none]
  have hmembers : (c.hivemindOf label).members = c.members label :=
    Hivemind.members_ofMembers label (c.nodup_members label)
  refine ⟨hnew, ⟨c.hivemindOf label, Hivemind.label_ofMembers _ _, hmembers,
    (c.hivemindOf label).distinct, fun hmem => ?_, ?_⟩, fun other => ?_, fun e he => ?_, rfl, rfl⟩
  · -- members have tags, and what has a component was there
    rw [hmembers] at hmem
    obtain ⟨tag, htag, -⟩ := tag_of_mem_membersOf hmem
    rw [Population.contains_of_get? htag] at hnew
    cases hnew
  · rw [find?_of_unmarked, if_pos rfl]
  · refine membersOf_congr (fun e => congrArg (Option.map _) ?_) other
    show (Table.find? _ e).bind _ = (c.store.records.find? e).bind _
    rw [find?_of_unmarked]
    split
    · next he =>
      rw [he, hnext]
      rfl
    · rfl
  · rw [find?_of_unmarked, if_neg he]

/-- A hivemind that is refused leaves no trace on the records. -/
theorem records_of_error {c c' : Coordinator Population} {label : String} {fault : Fault}
    (herror : c.materializeHivemind label = (.error fault, c')) :
    c.nextEntity ∈ c.store.readOnly ∧ c'.store.records = c.store.records := by
  by_cases hmark : c.nextEntity ∈ c.store.readOnly
  · rw [materializeHivemind_of_marked label hmark] at herror
    cases herror
    exact ⟨hmark, Population.records_drop_create hivemindEntityName c.store⟩
  · rw [materializeHivemind_of_unmarked label hmark] at herror
    cases herror

/-- **Making hiveminds is faithful and without side effects.** A hivemind that is made is a new
entity, with the label it was asked for and the members that the group has before and after, none of
them twice and it not among them; it carries nothing else, and every other entity is as before. Two
that are made in a row of labels that match are two entities with the same members. If a hivemind is
refused, which it is if and only if the number it would get was marked read-only in advance, there
are the same entities as before with the same components. -/
theorem hiveminds_are_snapshots (c : Coordinator Population) (label : String) :
    (∀ h c', c.materializeHivemind label = (.ok h, c') → Materialized label h c c') ∧
    (∀ other h₁ c₁ h₂ c₂, labelsMatch label other = true →
      c.materializeHivemind label = (.ok h₁, c₁) → c₁.materializeHivemind other = (.ok h₂, c₂) →
      h₁ ≠ h₂ ∧ ∃ hive₁ hive₂, c₂.hivemind? h₁ = some hive₁ ∧ c₂.hivemind? h₂ = some hive₂ ∧
        hive₁.members = hive₂.members) ∧
    ((∃ fault c', c.materializeHivemind label = (.error fault, c')) ↔
      c.nextEntity ∈ c.store.readOnly) ∧
    ∀ fault c', c.materializeHivemind label = (.error fault, c') →
      c'.store.records = c.store.records := by
  refine ⟨fun h c' => materialized_of_ok, fun other h₁ c₁ h₂ c₂ hmatch hfirst hsecond => ?_,
    ⟨fun ⟨fault, c', herror⟩ => (records_of_error herror).1,
      fun hmark => ⟨_, _, materializeHivemind_of_marked label hmark⟩⟩,
    fun fault c' herror => (records_of_error herror).2⟩
  have hmade₁ := materialized_of_ok hfirst
  have hmade₂ := materialized_of_ok hsecond
  obtain ⟨hive₁, hhive₁, hmembers₁⟩ := hmade₁.hivemind?_eq
  obtain ⟨hive₂, hhive₂, hmembers₂⟩ := hmade₂.hivemind?_eq
  have hne : h₁ ≠ h₂ := by
    rintro rfl
    have hthere : c₁.store.contains h₁ = true := Population.contains_of_get? hhive₁
    rw [hmade₂.new] at hthere
    cases hthere
  refine ⟨hne, hive₁, hive₂, ?_, hhive₂, ?_⟩
  · -- the second leaves the first as it is
    show (c₂.store.records.find? h₁).bind _ = _
    rw [hmade₂.others h₁ hne]
    exact hhive₁
  · rw [hmembers₁, hmembers₂, hmade₁.members other]
    exact membersOf_eq_of_labelsMatch hmatch c.store

/-- Two hiveminds of two deer, whose label is spelled in two ways, and one that is refused. -/
theorem movingDeer_materialized :
    let c := Event.after movingDeer overNobody
    let c₁ := (c.materializeHivemind "herd").2
    let c₂ := (c₁.materializeHivemind "Herd").2
    let marked := Event.apply.{0} c (.mark ⟨3⟩ true)
    c.members "herd" = [⟨1⟩, ⟨2⟩] ∧ Materialized "herd" ⟨3⟩ c c₁ ∧
      (∃ hive₁ hive₂, c₂.hivemind? ⟨3⟩ = some hive₁ ∧ c₂.hivemind? ⟨4⟩ = some hive₂ ∧
        hive₁.members = hive₂.members) ∧
      ∃ fault c', marked.materializeHivemind "herd" = (.error fault, c') ∧
        c'.store.records = marked.store.records := by
  intro c c₁ c₂ marked
  obtain ⟨hmade, htwice, -, -⟩ := hiveminds_are_snapshots c "herd"
  obtain ⟨-, -, hrefused, hrecords⟩ := hiveminds_are_snapshots marked "herd"
  obtain ⟨fault, c', herror⟩ := hrefused.mpr (by decide)
  exact ⟨by decide, hmade ⟨3⟩ c₁ rfl, (htwice "Herd" ⟨3⟩ c₁ ⟨4⟩ c₂ (by decide) rfl rfl).2,
    fault, c', herror, hrecords fault c' herror⟩

end Coordinator

end Herd
