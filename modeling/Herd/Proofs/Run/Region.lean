import Herd.Run.Step

/-!
# Regions of the run memory

A subtree owns the addresses from its root up to its end. What an evaluation does to
the memory is said by region: where it leaves notes as they were (`AgreeOff`), and
where there are none (`BlankOn`). The notes of a node and of each of its children lie
in regions that do not meet, so what one child does is no concern of its siblings.
-/

namespace Herd

universe u

namespace Memory

/-- No node from `lo` up to `hi` has a note. -/
def BlankOn (m : Memory) (lo hi : Nat) : Prop :=
  ∀ k : Nat, lo ≤ k → k < hi → m.find? k = none

/-- The notes from `lo` up to `hi` are the same. -/
def AgreeOn (m m' : Memory) (lo hi : Nat) : Prop :=
  ∀ k : Nat, lo ≤ k → k < hi → m'.find? k = m.find? k

/-- All notes but those from `lo` up to `hi` are the same. -/
def AgreeOff (m m' : Memory) (lo hi : Nat) : Prop :=
  ∀ k : Nat, k < lo ∨ hi ≤ k → m'.find? k = m.find? k

variable {m m' m'' : Memory} {lo hi lo' hi' : Nat}

theorem BlankOn.mono (h : m.BlankOn lo hi) (hlo : lo ≤ lo') (hhi : hi' ≤ hi) :
    m.BlankOn lo' hi' :=
  fun k h₁ h₂ => h k (Nat.le_trans hlo h₁) (Nat.lt_of_lt_of_le h₂ hhi)

/-- Whether a region is blank is up to its notes. -/
theorem BlankOn.congr (h : m.BlankOn lo hi) (hm : AgreeOn m m' lo hi) : m'.BlankOn lo hi :=
  fun k h₁ h₂ => (hm k h₁ h₂).trans (h k h₁ h₂)

theorem AgreeOn.mono (h : AgreeOn m m' lo hi) (hlo : lo ≤ lo') (hhi : hi' ≤ hi) :
    AgreeOn m m' lo' hi' :=
  fun k h₁ h₂ => h k (Nat.le_trans hlo h₁) (Nat.lt_of_lt_of_le h₂ hhi)

theorem AgreeOff.refl (m : Memory) (lo hi : Nat) : AgreeOff m m lo hi := fun _ _ => rfl

theorem AgreeOff.trans (h₁ : AgreeOff m m' lo hi) (h₂ : AgreeOff m' m'' lo hi) :
    AgreeOff m m'' lo hi :=
  fun k hk => (h₂ k hk).trans (h₁ k hk)

theorem AgreeOff.mono (h : AgreeOff m m' lo hi) (hlo : lo' ≤ lo) (hhi : hi ≤ hi') :
    AgreeOff m m' lo' hi' :=
  fun k hk => h k (by omega)

/-- A region that does not meet the changed one keeps its notes. -/
theorem AgreeOff.agreeOn (h : AgreeOff m m' lo hi) (hd : hi' ≤ lo ∨ hi ≤ lo') :
    AgreeOn m m' lo' hi' :=
  fun k h₁ h₂ => h k (by omega)

end Memory

namespace Visit

variable {σ : Type u} (v : Visit σ)

@[simp] theorem leaves_forget (id : Nat) : (v.forget id).leaves = v.leaves := rfl

@[simp] theorem leaves_settle (id size : Nat) (status : Status) :
    (v.settle id size status).leaves = v.leaves := by
  unfold settle
  split <;> rfl

@[simp] theorem find?_remember_self (id : Nat) (note : NodeMemory) :
    (v.remember id note).memory.find? id = some note :=
  Table.find?_insert_self _ _ _

/-- A note concerns no address but its own. -/
theorem agreeOff_remember (id : Nat) (note : NodeMemory) :
    Memory.AgreeOff v.memory (v.remember id note).memory id (id + 1) :=
  fun k hk => Table.find?_insert_of_ne _ (by rintro rfl; omega) _

theorem agreeOff_forget (id : Nat) :
    Memory.AgreeOff v.memory (v.forget id).memory id (id + 1) :=
  fun k hk => Table.find?_erase_of_ne _ (by rintro rfl; omega)

theorem outside_eq_true {id size k : Nat} : outside id size k = true ↔ k < id ∨ id + size ≤ k := by
  simp [outside]

/-- Taking leave of a subtree concerns no address beyond it. -/
theorem agreeOff_settle (id size : Nat) (status : Status) :
    Memory.AgreeOff v.memory (v.settle id size status).memory id (id + size) := by
  intro k hk
  unfold settle
  split
  · exact (Table.find?_filterKeys _ _ _).trans (if_pos (outside_eq_true.mpr hk))
  · rfl

/-- A subtree that is done has no notes left. -/
theorem blankOn_settle (id size : Nat) {status : Status} (h : status.isDone = true) :
    (v.settle id size status).memory.BlankOn id (id + size) := by
  intro k h₁ h₂
  have hk : outside id size k ≠ true := fun hk => by rw [outside_eq_true] at hk; omega
  rw [settle, if_pos h]
  exact (Table.find?_filterKeys _ _ _).trans (if_neg hk)

end Visit

end Herd
