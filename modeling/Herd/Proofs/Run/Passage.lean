import Herd.Run.Step

/-!
# What an evaluation may do to a visit

A `Passage` for the node at `id` is a relation between visits before and after: one that is
reflexive and transitive and allows the node its own note, to be left or dropped. If the evaluators
of its children move visits along a passage (`Moves`), so does every composite, whatever visit it
starts from.
-/

namespace Herd

universe u

variable {σ : Type u} {id : NodeId} {R : Visit σ → Visit σ → Prop}

/-- A relation between visits before and after, which allows the node at `id` its note. -/
structure Passage (id : NodeId) (R : Visit σ → Visit σ → Prop) : Prop where
  refl : ∀ v, R v v
  trans : ∀ {u v w}, R u v → R v w → R u w
  remember : ∀ v note, R v (v.remember id note)
  forget : ∀ v, R v (v.forget id)

/-- An evaluator that does to every visit what the relation allows. -/
def Moves (R : Visit σ → Visit σ → Prop) (f : Evaluator σ) : Prop := ∀ v, R v (f v).2

/-- An evaluator that is confined is confined by whatever allows more. -/
theorem Moves.mono {R' : Visit σ → Visit σ → Prop} {f : Evaluator σ} (h : Moves R f)
    (hR : ∀ {v w}, R v w → R' v w) : Moves R' f :=
  fun v => hR (h v)

namespace Passage

variable (hR : Passage id R)

include hR

/-- What children are confined to, children in order are. -/
theorem ordered (goOn : Status) {fs : List (Evaluator σ)} (hfs : ∀ f ∈ fs, Moves R f) :
    ∀ index : Nat, Moves R (ordered goOn id index fs) := by
  induction fs with
  | nil => exact fun index v => hR.refl v
  | cons f fs ih =>
    intro index v
    have hf := hfs f List.mem_cons_self v
    have hrest := ih (fun g hg => hfs g (List.mem_cons_of_mem _ hg))
    simp only [Herd.ordered]
    split
    · exact hR.trans hf (hrest (index + 1) (f v).2)
    · split
      · exact hR.trans hf (hR.remember _ _)
      · exact hf

theorem resumed (goOn : Status) {fs : List (Evaluator σ)} (hfs : ∀ f ∈ fs, Moves R f) :
    Moves R (resumed goOn id fs) :=
  fun v => hR.ordered goOn (fun f hf => hfs f (List.mem_of_mem_drop hf)) (v.cursorAt id) v

theorem fillSlots {fs : List (Evaluator σ)} (hfs : ∀ f ∈ fs, Moves R f) :
    ∀ (slots : List (Option Status)) (v : Visit σ), R v (fillSlots slots fs v).2 := by
  induction fs with
  | nil =>
    intro slots v
    rcases slots with _ | ⟨_ | _, _⟩ <;> exact hR.refl v
  | cons f fs ih =>
    intro slots v
    have hrest := ih fun g hg => hfs g (List.mem_cons_of_mem _ hg)
    rcases slots with _ | ⟨_ | done, slots⟩
    · exact hR.refl v
    · exact hR.trans (hfs f List.mem_cons_self v) (hrest slots (f v).2)
    · exact hrest slots v

/-- A parallel node is confined to what its children are, but for its own note. -/
theorem parallel (threshold : Nat) {fs : List (Evaluator σ)} (hfs : ∀ f ∈ fs, Moves R f) :
    Moves R (parallel threshold id fs) := by
  intro v
  have hfill := hR.trans (hR.forget v) (hR.fillSlots hfs (v.slotsAt id fs.length) (v.forget id))
  simp only [Herd.parallel]
  split
  · exact hR.trans hfill (hR.remember _ _)
  · exact hfill

theorem repeatChild {f : Evaluator σ} (hf : Moves R f) :
    ∀ remaining done : Nat, Moves R (repeatChild id f remaining done) := by
  intro remaining
  induction remaining with
  | zero => exact fun done v => hR.refl v
  | succ remaining ih =>
    intro done v
    have hchild := hf v
    simp only [Herd.repeatChild]
    split
    · next w hw => rw [hw] at hchild; exact hR.trans hchild (ih (done + 1) w)
    · next w hw => rw [hw] at hchild; exact hchild
    · next w hw => rw [hw] at hchild; exact hR.trans hchild (hR.remember _ _)

/-- A decorator is confined to what its child is, but for its own note. -/
theorem decorate (now : Nat) {f : Evaluator σ} (hf : Moves R f) (d : Decorator) :
    Moves R (decorate now id f d) := by
  intro v
  have hchild := hf v
  cases d with
  | inverter => exact hchild
  | repeated count => exact hR.repeatChild hf _ _ v
  | untilFail =>
    simp only [Herd.decorate]
    split
    · next w hw => rw [hw] at hchild; exact hchild
    · next status w _ hw => rw [hw] at hchild; exact hchild
  | timeout ticks =>
    simp only [Herd.decorate]
    split
    · exact hR.refl v
    · split
      · next w hw => rw [hw] at hchild; exact hR.trans hchild (hR.remember _ _)
      · next status w _ hw => rw [hw] at hchild; exact hchild

end Passage

end Herd
