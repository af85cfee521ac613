import Herd.Proofs.World.Lawful

/-!
# What writes leave alone

`Written allowed s t` says that `t` comes of `s` by saves and removals at the places that are
`allowed`, however many of them and whichever are refused. A lawful store still has every other
component then (`Written.get?_eq`).

A population keeps its numbering, its marks and the names of its entities under all writes
(`Population.SameRoll`), so these and the components determine what has become of it
(`Population.SameRoll.eq_of_components`).
-/

namespace Herd

open EntityStore LawfulStore

section Written

variable {σ : Type} [EntityStore σ] {allowed allowed' : EntityId → ComponentKind → Prop}
  {s t u : σ}

/-- The store comes of `s` by writes at allowed places, each of them admitted or refused. -/
inductive Written (allowed : EntityId → ComponentKind → Prop) (s : σ) : σ → Prop
  | refl : Written allowed s s
  | save {t : σ} (h : Written allowed s t) {e : EntityId} {kind : ComponentKind}
    (hplace : allowed e kind) (x : kind.Payload) : Written allowed s (save e kind x t).2
  | remove {t : σ} (h : Written allowed s t) {e : EntityId} {kind : ComponentKind}
    (hplace : allowed e kind) : Written allowed s (remove e kind t).2

theorem Written.trans (h : Written allowed s t) (h' : Written allowed t u) :
    Written allowed s u := by
  induction h' with
  | refl => exact h
  | save _ hplace x ih => exact ih.save hplace x
  | remove _ hplace ih => exact ih.remove hplace

theorem Written.mono (h : Written allowed s t)
    (hallowed : ∀ {e kind}, allowed e kind → allowed' e kind) : Written allowed' s t := by
  induction h with
  | refl => exact .refl
  | save _ hplace x ih => exact ih.save (hallowed hplace) x
  | remove _ hplace ih => exact ih.remove (hallowed hplace)

/-- A write to one place leaves every other place as it was. -/
theorem Obeys.get?_eq {α : Type} {e d : EntityId} {kind kind' : ComponentKind}
    {x : Option kind'.Payload} {result : Except StoreFault α × σ} (h : Obeys d kind' x s result)
    (hplace : e = d → kind ≠ kind') : get? e kind result.2 = get? e kind s := by
  rcases result with ⟨_ | _, t⟩
  · exact h e kind
  · by_cases he : e = d
    · subst he
      exact h.kinds kind (hplace rfl)
    · exact h.others e he kind

/-- What is not an allowed place is as it was. -/
theorem Written.get?_eq [LawfulStore σ] (h : Written allowed s t) {e : EntityId}
    {kind : ComponentKind} (hplace : ¬ allowed e kind) : get? e kind t = get? e kind s := by
  induction h with
  | refl => rfl
  | save _ hallowed x ih =>
    refine ((save_obeys _ _ x _).get?_eq ?_).trans ih
    rintro rfl rfl
    exact hplace hallowed
  | remove _ hallowed ih =>
    refine ((remove_obeys _ _ _).get?_eq ?_).trans ih
    rintro rfl rfl
    exact hplace hallowed

end Written

/-! ## Populations -/

namespace EntityRecord

/-- A record is its name and its components. -/
theorem ext_get? {r r' : EntityRecord} (hname : r.name = r'.name)
    (h : ∀ kind, r.get? kind = r'.get? kind) : r = r' := by
  have htag : r.groupTag = r'.groupTag := h .groupTag
  have hbehavior : r.behavior = r'.behavior := h .behavior
  have hcollective : r.collectiveBehavior = r'.collectiveBehavior := h .collectiveBehavior
  have hhive : r.hivemind = r'.hivemind := h .hivemind
  have hmesh : r.skeletalMesh = r'.skeletalMesh := h .skeletalMesh
  have hmovement : r.characterMovement = r'.characterMovement := h .characterMovement
  cases r
  cases r'
  simp only at hname htag hbehavior hcollective hhive hmesh hmovement
  rw [hname, htag, hbehavior, hcollective, hhive, hmesh, hmovement]

end EntityRecord

namespace Population

/-- The populations have the same numbering, the same marks, and the same entities under the same
names. -/
structure SameRoll (p q : Population) : Prop where
  lastId : q.lastId = p.lastId
  readOnly : q.readOnly = p.readOnly
  names : ∀ e, (q.records.find? e).map (·.name) = (p.records.find? e).map (·.name)

variable {p q : Population}

theorem SameRoll.symm (h : SameRoll p q) : SameRoll q p :=
  ⟨h.lastId.symm, h.readOnly.symm, fun e => (h.names e).symm⟩

theorem SameRoll.trans {r : Population} (h : SameRoll p q) (h' : SameRoll q r) : SameRoll p r :=
  ⟨h'.lastId.trans h.lastId, h'.readOnly.trans h.readOnly,
    fun e => (h'.names e).trans (h.names e)⟩

/-- Populations of the same roll with the same components are the same. -/
theorem SameRoll.eq_of_components (h : SameRoll p q)
    (hcomponents : ∀ e kind, EntityStore.get? e kind q = EntityStore.get? e kind p) : q = p := by
  have hrecords : q.records = p.records := by
    refine Table.ext_find? fun e => ?_
    have hname := h.names e
    cases hq : q.records.find? e with
    | none =>
      rw [hq, Option.map_none] at hname
      exact (Option.map_eq_none_iff.mp hname.symm).symm
    | some r =>
      rw [hq, Option.map_some] at hname
      obtain ⟨r', hp, hname⟩ := Option.map_eq_some_iff.mp hname.symm
      rw [hp]
      refine congrArg some (EntityRecord.ext_get? hname.symm fun kind => ?_)
      have hkind : (q.records.find? e).bind (·.get? kind) =
          (p.records.find? e).bind (·.get? kind) := hcomponents e kind
      rwa [hq, hp] at hkind
  have hlast := h.lastId
  have hmarks := h.readOnly
  cases p
  cases q
  simp only at hlast hmarks hrecords
  subst hlast hmarks hrecords
  rfl

/-- Setting a component leaves the roll as it is. -/
theorem sameRoll_update (e : EntityId) (kind : ComponentKind) (x : Option kind.Payload)
    (p : Population) : SameRoll p (p.update e kind x) := by
  refine ⟨rfl, rfl, fun d => ?_⟩
  show ((p.records.modify e (·.set kind x)).find? d).map (·.name) = _
  by_cases hd : d = e
  · subst hd
    rw [Table.find?_modify_self, Option.map_map]
    exact congrArg (Option.map · _) (funext fun r => r.name_set kind x)
  · rw [Table.find?_modify_of_ne _ hd]

/-- No write makes an entity or takes one away. -/
theorem sameRoll_of_written {allowed : EntityId → ComponentKind → Prop} (h : Written allowed p q) :
    SameRoll p q := by
  induction h with
  | refl => exact ⟨rfl, rfl, fun _ => rfl⟩
  | @save t _ e kind _ x ih =>
    refine ih.trans ?_
    simp only [EntityStore.save]
    split
    · exact sameRoll_update e kind (some x) t
    · exact ⟨rfl, rfl, fun _ => rfl⟩
  | @remove t _ e kind _ ih =>
    refine ih.trans ?_
    simp only [EntityStore.remove]
    split
    · exact sameRoll_update e kind none t
    · exact ⟨rfl, rfl, fun _ => rfl⟩

end Population

end Herd
