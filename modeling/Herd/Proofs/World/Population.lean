import Herd.Proofs.World.Steady
import Herd.World.Population

/-!
# Populations are steady

A population refuses writes to entities that are marked and to those that there are
not, and no write changes which these are. Creation and destruction are no writes: a
created entity is new and has no components, and destroying it at once undoes its
creation.
-/

namespace Herd

open EntityStore SteadyStore

namespace Population

variable {e : EntityId} {p : Population}

/-! ## Refusals -/

/-- Why a population refuses writes to an entity: it is marked, or there is none. -/
def refusalOf (e : EntityId) (p : Population) : Option StoreFault :=
  if e ∈ p.readOnly then some (.rejected e readOnlyReason)
  else if p.contains e then none
  else some (.unknownEntity e)

theorem writable_of_refusalOf_eq_some {f : StoreFault} (h : p.refusalOf e = some f) :
    p.writable e = .error f := by
  unfold refusalOf at h
  unfold writable
  by_cases hmark : e ∈ p.readOnly
  · rw [if_pos hmark] at h ⊢
    rw [Option.some.inj h]
  · rw [if_neg hmark] at h ⊢
    cases hfind : p.records.find? e with
    | some record =>
      have hin : p.contains e = true := by rw [contains, Table.contains, hfind, Option.isSome_some]
      rw [if_pos hin] at h
      cases h
    | none =>
      have hout : ¬ p.contains e = true := by
        rw [contains, Table.contains, hfind]
        exact Bool.false_ne_true
      rw [if_neg hout] at h
      rw [Option.some.inj h]

/-- An entity that is not refused has a record that may be written. -/
theorem writable_of_refusalOf_eq_none (h : p.refusalOf e = none) :
    ∃ record, p.writable e = .ok record ∧ p.records.find? e = some record := by
  unfold refusalOf at h
  unfold writable
  by_cases hmark : e ∈ p.readOnly
  · rw [if_pos hmark] at h
    cases h
  · rw [if_neg hmark] at h ⊢
    by_cases hin : p.contains e = true
    · obtain ⟨record, hfind⟩ := Option.isSome_iff_exists.mp hin
      rw [hfind]
      exact ⟨record, rfl, rfl⟩
    · rw [if_neg hin] at h
      cases h

/-! ## Writes -/

/-- Changing a component of an entity that there is. -/
theorem writes_update {kind : ComponentKind} {x : Option kind.Payload} {record : EntityRecord}
    (hfind : p.records.find? e = some record) :
    Writes (fun e _ p => refusalOf e p) e kind x p (p.update e kind x) := by
  have hself : (p.update e kind x).records.find? e = some (record.set kind x) := by
    show (p.records.modify e _).find? e = _
    rw [Table.find?_modify_self, hfind, Option.map_some]
  have hother : ∀ e', e' ≠ e → (p.update e kind x).records.find? e' = p.records.find? e' :=
    fun e' he => Table.find?_modify_of_ne _ he _
  refine ⟨?_, fun kind' hkind => ?_, fun e' he kind' => ?_, fun e' _ => ?_⟩
  · show ((p.update e kind x).records.find? e).bind (·.get? kind) = x
    rw [hself]
    exact record.get?_set_self kind x
  · show ((p.update e kind x).records.find? e).bind (·.get? kind') =
      (p.records.find? e).bind (·.get? kind')
    rw [hself, hfind]
    exact record.get?_set_of_ne hkind x
  · show ((p.update e kind x).records.find? e').bind (·.get? kind') = _
    rw [hother e' he]
    rfl
  · have hin : (p.update e kind x).contains e' = p.contains e' := Table.contains_modify _ _ _ _
    show refusalOf e' (p.update e kind x) = refusalOf e' p
    unfold refusalOf
    rw [hin]
    rfl

instance : SteadyStore Population where
  refusal e _ p := refusalOf e p
  ascending_entitiesWith kind p := List.pairwise_map.mpr (p.records.ascending.filter _)
  mem_entitiesWith {e kind p} := by
    show e ∈ (p.records.entries.filter fun e => e.2.has kind).map (·.1) ↔
      ((p.records.find? e).bind (·.get? kind)).isSome = true
    rw [List.mem_map]
    constructor
    · rintro ⟨⟨e', record⟩, hmem, rfl⟩
      obtain ⟨hentry, hhas⟩ := List.mem_filter.mp hmem
      rw [Table.find?_eq_some_iff.mpr hentry]
      exact hhas
    · intro h
      cases hfind : p.records.find? e with
      | none => rw [hfind] at h; cases h
      | some record =>
        rw [hfind] at h
        exact ⟨(e, record), List.mem_filter.mpr ⟨Table.find?_eq_some_iff.mp hfind, h⟩, rfl⟩
  save_refused {e kind p f} x h := by
    simp only [save, writable_of_refusalOf_eq_some h]
  save_admitted {e kind p} x h := by
    obtain ⟨record, hrecord, hfind⟩ := writable_of_refusalOf_eq_none h
    exact ⟨p.update e kind (some x), by simp only [save, hrecord], writes_update hfind⟩
  remove_refused {e kind p f} h := by
    simp only [remove, writable_of_refusalOf_eq_some h]
  remove_admitted {e kind p} h := by
    obtain ⟨record, hrecord, hfind⟩ := writable_of_refusalOf_eq_none h
    refine ⟨p.update e kind none, ?_, writes_update hfind⟩
    simp only [remove, hrecord, EntityStore.get?, hfind, Option.bind_some]

/-- A marked entity refuses every write. -/
theorem refusal_of_mem_readOnly (h : e ∈ p.readOnly) (kind : ComponentKind) :
    refusal e kind p = some (.rejected e readOnlyReason) :=
  if_pos h

/-- What has a component is there. -/
theorem contains_of_get? {kind : ComponentKind} {x : kind.Payload}
    (hx : EntityStore.get? e kind p = some x) : p.contains e = true := by
  obtain ⟨record, hrecord, -⟩ := Option.bind_eq_some_iff.mp hx
  rw [contains, Table.contains, hrecord, Option.isSome_some]

/-- An entity that has a component and no mark admits every write. -/
theorem refusal_of_not_mem_readOnly {kind : ComponentKind} {x : kind.Payload}
    (hx : EntityStore.get? e kind p = some x) (h : e ∉ p.readOnly) (kind' : ComponentKind) :
    refusal e kind' p = none := by
  show refusalOf e p = none
  rw [refusalOf, if_neg h, if_pos (contains_of_get? hx)]

/-! ## Creation and destruction -/

theorem find?_of_not_contains (h : ¬ p.contains e = true) : p.records.find? e = none := by
  cases hfind : p.records.find? e with
  | none => rfl
  | some record =>
    rw [contains, Table.contains, hfind] at h
    exact absurd rfl h

/-- The next entity is new. -/
theorem find?_next (p : Population) : p.records.find? ⟨p.lastId + 1⟩ = none := by
  refine find?_of_not_contains fun h => ?_
  have hle : p.lastId + 1 ≤ p.lastId := p.numbered ⟨p.lastId + 1⟩ h
  omega

/-- An entity that is created has no component, and no other entity changes. -/
theorem get?_create (name : String) (p : Population) (e : EntityId) (kind : ComponentKind) :
    EntityStore.get? e kind (create name p).2 = EntityStore.get? e kind p := by
  show ((p.records.insert ⟨p.lastId + 1⟩ (.ofName name)).find? e).bind (·.get? kind) =
    (p.records.find? e).bind (·.get? kind)
  by_cases he : e = ⟨p.lastId + 1⟩
  · rw [he, find?_next, Table.find?_insert_self]
    cases kind <;> rfl
  · rw [Table.find?_insert_of_ne _ he]

/-- A mark changes no component. -/
theorem get?_setReadOnly (d : EntityId) (mark : Bool) (p : Population) (e : EntityId)
    (kind : ComponentKind) :
    EntityStore.get? e kind (p.setReadOnly d mark) = EntityStore.get? e kind p := by
  unfold setReadOnly
  split
  · split <;> rfl
  · rfl

end Population

end Herd
