import Herd.World.Store

/-!
# Steady stores

A store is steady if it is settled in advance which writes it refuses, and if a write
that it admits changes the component it names and nothing else.

Two relations carry what is proved over steady stores: `AgreeAt e s t`, where two
stores are the same as far as the entity `e` is concerned, and `Keeps e s s'`, where
nothing but components of `e` has changed.
-/

namespace Herd

open EntityStore

/-- A component of an entity was set or cleared, and nothing else has changed. -/
structure Writes {σ : Type} [EntityStore σ]
    (refusal : EntityId → ComponentKind → σ → Option StoreFault) (e : EntityId)
    (kind : ComponentKind) (x : Option kind.Payload) (s s' : σ) : Prop where
  written : get? e kind s' = x
  kinds : ∀ kind', kind' ≠ kind → get? e kind' s' = get? e kind' s
  others : ∀ e', e' ≠ e → ∀ kind', get? e' kind' s' = get? e' kind' s
  refusals : ∀ e' kind', refusal e' kind' s' = refusal e' kind' s

/-- A store whose refusals do not depend on the writes before. -/
class SteadyStore (σ : Type) [EntityStore σ] where
  /-- Why writes to a component of an entity are refused, if they are. -/
  refusal : EntityId → ComponentKind → σ → Option StoreFault
  ascending_entitiesWith : ∀ (kind : ComponentKind) (s : σ),
    (entitiesWith kind s).Pairwise fun a b => compare a b = .lt
  mem_entitiesWith : ∀ {e : EntityId} {kind : ComponentKind} {s : σ},
    e ∈ entitiesWith kind s ↔ (get? e kind s).isSome = true
  save_refused : ∀ {e : EntityId} {kind : ComponentKind} {s : σ} {f : StoreFault}
    (x : kind.Payload), refusal e kind s = some f → save e kind x s = (.error f, s)
  save_admitted : ∀ {e : EntityId} {kind : ComponentKind} {s : σ} (x : kind.Payload),
    refusal e kind s = none →
      ∃ s', save e kind x s = (.ok (), s') ∧ Writes refusal e kind (some x) s s'
  remove_refused : ∀ {e : EntityId} {kind : ComponentKind} {s : σ} {f : StoreFault},
    refusal e kind s = some f → remove e kind s = (.error f, s)
  remove_admitted : ∀ {e : EntityId} {kind : ComponentKind} {s : σ},
    refusal e kind s = none →
      ∃ s', remove e kind s = (.ok (get? e kind s), s') ∧ Writes refusal e kind none s s'

open SteadyStore

variable {σ : Type} [EntityStore σ] [SteadyStore σ]

/-- The two stores have the same components of an entity, and refuse the same writes to it. -/
structure AgreeAt (e : EntityId) (s t : σ) : Prop where
  components : ∀ kind, get? e kind s = get? e kind t
  refusals : ∀ kind, refusal e kind s = refusal e kind t

/-- From `s` to `s'` only components of an entity have changed. -/
structure Keeps (e : EntityId) (s s' : σ) : Prop where
  others : ∀ e', e' ≠ e → AgreeAt e' s s'
  refusals : ∀ kind, refusal e kind s = refusal e kind s'

variable {e : EntityId} {s t u s' t' : σ}

theorem AgreeAt.refl (e : EntityId) (s : σ) : AgreeAt e s s := ⟨fun _ => rfl, fun _ => rfl⟩

theorem AgreeAt.symm (h : AgreeAt e s t) : AgreeAt e t s :=
  ⟨fun kind => (h.components kind).symm, fun kind => (h.refusals kind).symm⟩

theorem AgreeAt.trans (h₁ : AgreeAt e s t) (h₂ : AgreeAt e t u) : AgreeAt e s u :=
  ⟨fun kind => (h₁.components kind).trans (h₂.components kind),
    fun kind => (h₁.refusals kind).trans (h₂.refusals kind)⟩

theorem Keeps.refl (e : EntityId) (s : σ) : Keeps e s s :=
  ⟨fun e' _ => AgreeAt.refl e' s, fun _ => rfl⟩

/-- What two steps keep for the others is kept. -/
theorem Keeps.trans (h₁ : Keeps e s t) (h₂ : Keeps e t u) : Keeps e s u :=
  ⟨fun e' he => (h₁.others e' he).trans (h₂.others e' he),
    fun kind => (h₁.refusals kind).trans (h₂.refusals kind)⟩

/-- A write to an entity keeps all others as they were, and what is refused. -/
theorem Writes.keeps {kind : ComponentKind} {x : Option kind.Payload}
    (h : Writes refusal e kind x s s') : Keeps e s s' :=
  ⟨fun e' he => ⟨fun kind' => (h.others e' he kind').symm, fun kind' => (h.refusals e' kind').symm⟩,
    fun kind' => (h.refusals e kind').symm⟩

/-- One write on two stores that are the same for the entity leaves them so. -/
theorem AgreeAt.write {kind : ComponentKind} {x : Option kind.Payload} (h : AgreeAt e s t)
    (hs : Writes refusal e kind x s s') (ht : Writes refusal e kind x t t') : AgreeAt e s' t' := by
  refine ⟨fun kind' => ?_, fun kind' => ?_⟩
  · by_cases hkind : kind' = kind
    · subst hkind
      exact hs.written.trans ht.written.symm
    · rw [hs.kinds kind' hkind, ht.kinds kind' hkind]
      exact h.components kind'
  · rw [hs.refusals, ht.refusals]
    exact h.refusals kind'

/-- A component that is written over and then put back is as if it was never touched. -/
theorem Writes.undo {kind : ComponentKind} {x y : Option kind.Payload}
    (h₁ : Writes refusal e kind x s t) (h₂ : Writes refusal e kind y t u)
    (hy : y = get? e kind s) : ∀ e', AgreeAt e' s u := by
  intro e'
  by_cases he : e' = e
  · subst he
    refine ⟨fun kind' => ?_, (h₁.keeps.trans h₂.keeps).refusals⟩
    by_cases hkind : kind' = kind
    · subst hkind
      rw [h₂.written, hy]
    · rw [h₂.kinds kind' hkind, h₁.kinds kind' hkind]
  · exact (h₁.keeps.trans h₂.keeps).others e' he

/-! ## Members of a group -/

omit [SteadyStore σ] in
/-- A member has a tag of the group. -/
theorem tag_of_mem_membersOf {label : String} (h : e ∈ membersOf label s) :
    ∃ tag : GroupTag, get? e .groupTag s = some tag ∧ tag.isIn label = true := by
  unfold membersOf at h
  split at h
  · cases h
  · obtain ⟨-, hin⟩ := List.mem_filter.mp h
    split at hin
    · next tag htag => exact ⟨tag, htag, hin⟩
    · cases hin

omit [EntityStore σ] [SteadyStore σ] in
theorem nodup_of_ascending {es : List EntityId} (h : es.Pairwise fun a b => compare a b = .lt) :
    es.Nodup := by
  refine List.Pairwise.imp (fun {a b} hab => ?_) h
  rintro rfl
  rw [Std.ReflOrd.compare_self] at hab
  cases hab

/-- No entity is a member twice. -/
theorem nodup_membersOf (label : String) (s : σ) : (membersOf label s).Nodup := by
  unfold membersOf
  split
  · exact List.nodup_nil
  · exact (nodup_of_ascending (ascending_entitiesWith .groupTag s)).filter _

end Herd
