import Mathlib.Data.List.Forall2
import Herd.Run.Step

/-!
# Evaluations that mirror each other

A map of visits is a `Mirror` if it goes with everything that an evaluation does to a visit and
shows every note as it is, apart from the dates of timeouts, which it may move. What evaluators do
to their visits is then what others do to the images (`Mirrors`), and the composites keep this: each
of them is treated once, over children of which it is known.
-/

namespace Herd

universe u v

/-- The same note, dated later. -/
def NodeMemory.delayed (ticks : Nat) : NodeMemory → NodeMemory
  | .startedAt tick => .startedAt (tick + ticks)
  | note => note

section Composites

variable {σ : Type u} {τ : Type v} {ticks : Nat} {φ : Visit σ → Visit τ} {id : NodeId}

/-- `φ` shows each visit with the dates of its notes moved by `ticks`, and goes with all that is
done to visits. -/
structure Mirror (ticks : Nat) (φ : Visit σ → Visit τ) : Prop where
  remember : ∀ v id note, φ (v.remember id note) = (φ v).remember id (note.delayed ticks)
  forget : ∀ v id, φ (v.forget id) = (φ v).forget id
  settle : ∀ v id size status, φ (v.settle id size status) = (φ v).settle id size status
  find? : ∀ v id, (φ v).memory.find? id = (v.memory.find? id).map (·.delayed ticks)

namespace Mirror

variable (h : Mirror ticks φ) (v : Visit σ) (id : NodeId)

include h

/-- Cursors are not dates, so the image has the same. -/
theorem cursorAt : (φ v).cursorAt id = v.cursorAt id := by
  simp only [Visit.cursorAt, h.find?]
  rcases v.memory.find? id with _ | ⟨_ | _ | _ | _⟩ <;> rfl

theorem slotsAt (count : Nat) : (φ v).slotsAt id count = v.slotsAt id count := by
  simp only [Visit.slotsAt, h.find?]
  rcases v.memory.find? id with _ | ⟨_ | _ | _ | _⟩ <;> rfl

theorem iterationsAt : (φ v).iterationsAt id = v.iterationsAt id := by
  simp only [Visit.iterationsAt, h.find?]
  rcases v.memory.find? id with _ | ⟨_ | _ | _ | _⟩ <;> rfl

/-- Later notes, read later: a timeout was entered as much later. -/
theorem startedAt (now : Nat) : (φ v).startedAt id (now + ticks) = v.startedAt id now + ticks := by
  simp only [Visit.startedAt, h.find?]
  rcases v.memory.find? id with _ | ⟨_ | _ | _ | _⟩ <;> rfl

end Mirror

/-- `g` does to the image of a visit what `f` does to the visit. -/
def Mirrors (φ : Visit σ → Visit τ) (f : Evaluator σ) (g : Evaluator τ) : Prop :=
  ∀ v : Visit σ, g (φ v) = ((f v).1, φ (f v).2)

variable (hφ : Mirror ticks φ)

include hφ

/-- Children in order mirror children in order. -/
theorem ordered_mirrors (goOn : Status) {fs : List (Evaluator σ)} {gs : List (Evaluator τ)}
    (h : List.Forall₂ (Mirrors φ) fs gs) :
    ∀ index : Nat, Mirrors φ (ordered goOn id index fs) (ordered goOn id index gs) := by
  induction h with
  | nil => exact fun index v => rfl
  | @cons f g fs gs hfg _ ih =>
    intro index v
    simp only [ordered, hfg v]
    by_cases hgoOn : (f v).1 = goOn
    · simp only [if_pos hgoOn]
      exact ih (index + 1) (f v).2
    · simp only [if_neg hgoOn]
      split
      · simp only [hφ.remember, NodeMemory.delayed]
      · rfl

theorem resumed_mirrors (goOn : Status) {fs : List (Evaluator σ)} {gs : List (Evaluator τ)}
    (h : List.Forall₂ (Mirrors φ) fs gs) : Mirrors φ (resumed goOn id fs) (resumed goOn id gs) := by
  intro v
  simp only [resumed, hφ.cursorAt]
  exact ordered_mirrors hφ goOn (List.forall₂_drop _ h) (v.cursorAt id) v

omit hφ in
/-- The same slots are filled with the same answers. -/
theorem fillSlots_mirrors {fs : List (Evaluator σ)} {gs : List (Evaluator τ)}
    (h : List.Forall₂ (Mirrors φ) fs gs) : ∀ (slots : List (Option Status)) (v : Visit σ),
      fillSlots slots gs (φ v) = ((fillSlots slots fs v).1, φ (fillSlots slots fs v).2) := by
  induction h with
  | nil =>
    intro slots v
    rcases slots with _ | ⟨_ | _, _⟩ <;> rfl
  | @cons f g fs gs hfg _ ih =>
    intro slots v
    rcases slots with _ | ⟨_ | _, slots⟩
    · rfl
    · simp only [fillSlots, hfg v, ih]
    · simp only [fillSlots, ih]

/-- A parallel node mirrors one whose children are mirrored. -/
theorem parallel_mirrors (threshold : Nat) {fs : List (Evaluator σ)} {gs : List (Evaluator τ)}
    (h : List.Forall₂ (Mirrors φ) fs gs) :
    Mirrors φ (parallel threshold id fs) (parallel threshold id gs) := by
  intro v
  simp only [parallel, hφ.slotsAt, ← h.length_eq, ← hφ.forget, fillSlots_mirrors h]
  split
  · simp only [hφ.remember, NodeMemory.delayed]
  · rfl

theorem repeatChild_mirrors {f : Evaluator σ} {g : Evaluator τ} (h : Mirrors φ f g)
    (remaining : Nat) : ∀ done : Nat, Mirrors φ (repeatChild id f remaining done)
      (repeatChild id g remaining done) := by
  induction remaining with
  | zero => exact fun done v => rfl
  | succ remaining ih =>
    intro done v
    simp only [repeatChild, h v]
    rcases f v with ⟨_ | _ | _, w⟩
    · exact ih (done + 1) w
    · rfl
    · simp only [hφ.remember, NodeMemory.delayed]

/-- A timeout looks at how long ago its child was entered, which is the same for both. -/
theorem decorate_mirrors (now : Nat) {f : Evaluator σ} {g : Evaluator τ} (h : Mirrors φ f g)
    (d : Decorator) : Mirrors φ (decorate now id f d) (decorate (now + ticks) id g d) := by
  intro v
  cases d with
  | inverter => simp only [decorate, h v]
  | repeated count =>
    simp only [decorate, hφ.iterationsAt]
    exact repeatChild_mirrors hφ h _ _ v
  | untilFail =>
    simp only [decorate, h v]
    rcases f v with ⟨_ | _ | _, w⟩ <;> rfl
  | timeout limit =>
    simp only [decorate, hφ.startedAt, Nat.add_sub_add_right, h v]
    split
    · rfl
    · rcases f v with ⟨_ | _ | _, w⟩
      · rfl
      · rfl
      · simp only [hφ.remember, NodeMemory.delayed]

theorem settled_mirrors {size : Nat} {f : Evaluator σ} {g : Evaluator τ} (h : Mirrors φ f g) :
    Mirrors φ (settled id size f) (settled id size g) := by
  intro v
  simp only [settled, h v, hφ.settle]

end Composites

end Herd
