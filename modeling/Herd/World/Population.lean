import Herd.Table
import Herd.World.Store

/-!
# Populations

A `Population` keeps its entities in memory. Entities are numbered from 1 in the
order of their creation and a number is never given twice; entities that are
marked read-only refuse every write.
-/

namespace Herd

/-- A store of entities in memory. -/
structure Population where
  /-- The number that was given out last. -/
  lastId : Nat
  records : Table EntityId EntityRecord
  readOnly : List EntityId
  /-- Every entity has a number that was given out. -/
  numbered : ∀ e, records.contains e = true → e.raw ≤ lastId

namespace Population

def empty : Population := ⟨0, .empty, [], fun _ h => absurd h Bool.false_ne_true⟩

instance : Inhabited Population := ⟨empty⟩

/-- Add an entity with its components. -/
def spawn (record : EntityRecord) (p : Population) : EntityId × Population :=
  let id : EntityId := ⟨p.lastId + 1⟩
  (id,
    { p with
      lastId := p.lastId + 1
      records := p.records.insert id record
      numbered := fun e he => by
        by_cases h : e = id
        · exact h ▸ Nat.le_refl _
        · rw [Table.contains_insert_of_ne _ h] at he
          exact Nat.le_succ_of_le (p.numbered e he) })

/-- Mark an entity as read-only, or lift the mark. There need not be such an entity. -/
def setReadOnly (entity : EntityId) (mark : Bool) (p : Population) : Population :=
  if mark then
    if entity ∈ p.readOnly then p else { p with readOnly := entity :: p.readOnly }
  else { p with readOnly := p.readOnly.filter (· ≠ entity) }

def contains (entity : EntityId) (p : Population) : Bool := p.records.contains entity

def size (p : Population) : Nat := p.records.size

def isEmpty (p : Population) : Bool := p.records.isEmpty

def readOnlyReason : String := "entity is read-only"

/-- The record of an entity that may be written. -/
def writable (entity : EntityId) (p : Population) : Except StoreFault EntityRecord :=
  if entity ∈ p.readOnly then .error (.rejected entity readOnlyReason)
  else
    match p.records.find? entity with
    | some record => .ok record
    | none => .error (.unknownEntity entity)

/-- Set or clear a component of an entity. -/
def update (entity : EntityId) (kind : ComponentKind) (c : Option kind.Payload) (p : Population) :
    Population :=
  { p with
    records := p.records.modify entity (·.set kind c)
    numbered := fun e he => p.numbered e (by rwa [Table.contains_modify] at he) }

/-- Take an entity off the records, and its mark with it. -/
def drop (entity : EntityId) (p : Population) : Population :=
  { p with
    records := p.records.erase entity
    readOnly := p.readOnly.filter (· ≠ entity)
    numbered := fun e he => p.numbered e (Table.contains_of_contains_erase he) }

instance : EntityStore Population where
  create name p := p.spawn (.ofName name)
  entitiesWith kind p := (p.records.entries.filter fun e => e.2.has kind).map (·.1)
  get? entity kind p := (p.records.find? entity).bind (·.get? kind)
  save entity kind c p :=
    match p.writable entity with
    | .ok _ => (.ok (), p.update entity kind (some c))
    | .error f => (.error f, p)
  remove entity kind p :=
    match p.writable entity with
    | .ok record => (.ok (record.get? kind), p.update entity kind none)
    | .error f => (.error f, p)
  destroy entity p := (p.records.contains entity, p.drop entity)

end Population

end Herd
