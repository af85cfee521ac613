import Herd.Proofs.World.Population
import Herd.World.Gate

/-!
# A ban keeps a population steady

A ban is fixed before any write and no write changes it, so a population behind a ban
is as steady as it is by itself: a write is refused by the ban, or else by the
population.
-/

namespace Herd

open EntityStore SteadyStore

namespace Gated

/-- Why writes to a component are refused: they are banned, or the population refuses them. -/
def refusalOf (e : EntityId) (kind : ComponentKind) (s : Gated Ban) : Option StoreFault :=
  if s.gate.refuses e kind then some (.rejected e (Rations.reason kind))
  else refusal e kind s.population

variable {e : EntityId} {kind : ComponentKind} {s : Gated Ban} {f : StoreFault}

/-- What is banned is refused with the reason of the ban. -/
theorem refusalOf_of_banned (h : s.gate.refuses e kind = true) :
    refusalOf e kind s = some (.rejected e (Rations.reason kind)) :=
  if_pos h

theorem refusalOf_of_not_banned (h : ¬ s.gate.refuses e kind = true) :
    refusalOf e kind s = refusal e kind s.population :=
  if_neg h

/-- A write is admitted if neither the ban nor the population refuses it. -/
theorem refusalOf_eq_none :
    refusalOf e kind s = none ↔
      ¬ s.gate.refuses e kind = true ∧ refusal e kind s.population = none := by
  by_cases hban : s.gate.refuses e kind = true
  · rw [refusalOf_of_banned hban]
    exact ⟨fun h => (Option.some_ne_none _ h).elim, fun h => absurd hban h.1⟩
  · rw [refusalOf_of_not_banned hban]
    exact ⟨fun h => ⟨hban, h⟩, fun h => h.2⟩

/-! ## Writes -/

theorem judge_of_banned (h : s.gate.refuses e kind = true) :
    Gate.judge e kind s.gate = (some (Rations.reason kind), s.gate) := by
  show (if s.gate.refuses e kind then _ else _, s.gate) = _
  rw [if_pos h]

theorem judge_of_not_banned (h : ¬ s.gate.refuses e kind = true) :
    Gate.judge e kind s.gate = (none, s.gate) := by
  show (if s.gate.refuses e kind then _ else _, s.gate) = _
  rw [if_neg h]

/-- A write that is not banned is up to the population. -/
theorem save_of_not_banned (x : kind.Payload) (h : ¬ s.gate.refuses e kind = true) :
    save e kind x s =
      ((save e kind x s.population).1, ⟨(save e kind x s.population).2, s.gate⟩) := by
  simp only [save, judge_of_not_banned h]

theorem remove_of_not_banned (h : ¬ s.gate.refuses e kind = true) :
    remove e kind s =
      ((remove e kind s.population).1, ⟨(remove e kind s.population).2, s.gate⟩) := by
  simp only [remove, judge_of_not_banned h]

/-- What a write does to the population is all that it does. -/
theorem writes_population {x : Option kind.Payload} {p : Population}
    (h : Writes refusal e kind x s.population p) : Writes refusalOf e kind x s ⟨p, s.gate⟩ := by
  refine ⟨h.written, h.kinds, h.others, fun e' kind' => ?_⟩
  unfold refusalOf
  rw [h.refusals]

instance : SteadyStore (Gated Ban) where
  refusal := refusalOf
  ascending_entitiesWith kind s := ascending_entitiesWith kind s.population
  mem_entitiesWith {_ _ s} := mem_entitiesWith (s := s.population)
  save_refused {e kind s f} x h := by
    by_cases hban : s.gate.refuses e kind = true
    · rw [refusalOf_of_banned hban] at h
      simp only [save, judge_of_banned hban, ← Option.some.inj h]
    · rw [refusalOf_of_not_banned hban] at h
      rw [save_of_not_banned x hban, save_refused x h]
  save_admitted {e kind s} x h := by
    obtain ⟨hban, h⟩ := refusalOf_eq_none.mp h
    obtain ⟨p, hp, hw⟩ := save_admitted x h
    exact ⟨⟨p, s.gate⟩, by rw [save_of_not_banned x hban, hp], writes_population hw⟩
  remove_refused {e kind s f} h := by
    by_cases hban : s.gate.refuses e kind = true
    · rw [refusalOf_of_banned hban] at h
      simp only [remove, judge_of_banned hban, ← Option.some.inj h]
    · rw [refusalOf_of_not_banned hban] at h
      rw [remove_of_not_banned hban, remove_refused h]
  remove_admitted {e kind s} h := by
    obtain ⟨hban, h⟩ := refusalOf_eq_none.mp h
    obtain ⟨p, hp, hw⟩ := remove_admitted h
    refine ⟨⟨p, s.gate⟩, ?_, writes_population hw⟩
    rw [remove_of_not_banned hban, hp]
    rfl

end Gated

end Herd
