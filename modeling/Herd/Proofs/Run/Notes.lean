import Herd.Proofs.Run.Progress
import Herd.Proofs.Run.Region

/-!
# Progress written out as notes

`Holds m clock n id p` says that the notes of `m` in the region of node `n` at `id` are
the state `p` of that node: none where it is idle, and for a node in progress its own
note over the notes of its children. A timeout dates its start, so the ticks it spent
are counted back from `clock`, the tick to come.

The relation looks at nothing outside the region (`Holds.congr`), and for an idle node
at no clock (`Holds.idle`).
-/

namespace Herd

mutual

/-- The notes in the region of a node are the node's state. -/
def Holds (m : Memory) (clock : Nat) : Node → Nat → Option Progress → Prop
  | n, id, none => m.BlankOn id (id + n.size)
  | .leaf _, id, some .leaf => m.find? id = none
  | .sequence cs, id, some (.ordered i q) =>
    m.find? id = some (.cursor i) ∧ HoldsAt m clock cs (id + 1) i q
  | .selector cs, id, some (.ordered i q) =>
    m.find? id = some (.cursor i) ∧ HoldsAt m clock cs (id + 1) i q
  | .parallel threshold cs, id, some (.parallel answers) =>
    m.find? id = some (.finished (answers.map Answer.verdict?)) ∧
      parallelStatus threshold (answers.map Answer.verdict?) = .running ∧
      HoldsEach m clock cs (id + 1) (answers.map Answer.state?)
  | .decorated .inverter c, id, some (.inverter q) =>
    m.find? id = none ∧ Holds m clock c (id + 1) (some q)
  | .decorated (.repeated count) c, id, some (.repeated k q) =>
    m.find? id = some (.iterations k) ∧ k < count ∧ Holds m clock c (id + 1) (some q)
  | .decorated .untilFail c, id, some (.untilFail p) =>
    m.find? id = none ∧ Holds m clock c (id + 1) p
  | .decorated (.timeout _) c, id, some (.timeout spent q) =>
    (∃ started, m.find? id = some (.startedAt started) ∧ started + spent = clock) ∧
      Holds m clock c (id + 1) (some q)
  | _, _, some _ => False

/-- Of siblings the one at index `i` is in progress, with the state `q`. -/
def HoldsAt (m : Memory) (clock : Nat) : List Node → Nat → (i : Nat) → (q : Progress) → Prop
  | [], _, _, _ => False
  | c :: cs, id, 0, q =>
    Holds m clock c id (some q) ∧ m.BlankOn (id + c.size) (id + c.size + Node.sizeAll cs)
  | c :: cs, id, i + 1, q => m.BlankOn id (id + c.size) ∧ HoldsAt m clock cs (id + c.size) i q

/-- The notes in the regions of siblings are their states, one by one. -/
def HoldsEach (m : Memory) (clock : Nat) : List Node → Nat → List (Option Progress) → Prop
  | [], _, [] => True
  | c :: cs, id, p :: ps => Holds m clock c id p ∧ HoldsEach m clock cs (id + c.size) ps
  | _, _, _ => False

end

variable {m m' : Memory} {clock : Nat}

/-- Where there is no progress there are no notes. -/
@[simp] theorem holds_none {n : Node} {id : Nat} :
    Holds m clock n id none ↔ m.BlankOn id (id + n.size) := by
  cases n <;> simp only [Holds]

/-- What is idle is so at any clock. -/
theorem Holds.idle {n : Node} {id : Nat} (h : m.BlankOn id (id + n.size)) :
    Holds m clock n id none :=
  holds_none.mpr h

/-- The notes of a sequence or selector in progress: the index of one child over its notes. -/
def HoldsOrdered (m : Memory) (clock : Nat) (cs : List Node) (id : Nat) (p : Progress) : Prop :=
  ∃ i q, p = .ordered i q ∧ m.find? id = some (.cursor i) ∧ HoldsAt m clock cs (id + 1) i q

/-- The notes of a sequence are those of children in order. -/
theorem holds_sequence {cs : List Node} {id : Nat} {p : Progress} :
    Holds m clock (.sequence cs) id (some p) ↔ HoldsOrdered m clock cs id p := by
  cases p with
  | ordered i q =>
    simp only [Holds, HoldsOrdered]
    exact ⟨fun h => ⟨i, q, rfl, h⟩, by rintro ⟨_, _, ⟨⟩, h⟩; exact h⟩
  | _ => simp [Holds, HoldsOrdered]

theorem holds_selector {cs : List Node} {id : Nat} {p : Progress} :
    Holds m clock (.selector cs) id (some p) ↔ HoldsOrdered m clock cs id p := by
  cases p with
  | ordered i q =>
    simp only [Holds, HoldsOrdered]
    exact ⟨fun h => ⟨i, q, rfl, h⟩, by rintro ⟨_, _, ⟨⟩, h⟩; exact h⟩
  | _ => simp [Holds, HoldsOrdered]

/-! ## The relation looks at no other region -/

/-- Notes that agree on the region of a node hold the same states of it. -/
def Regional (n : Node) : Prop :=
  ∀ {m m' : Memory} {clock id : Nat} {p : Option Progress},
    Memory.AgreeOn m m' id (id + n.size) → Holds m clock n id p → Holds m' clock n id p

/-- Notes of the child in progress are read in the region of the siblings. -/
theorem HoldsAt.congr_of_regional {cs : List Node} (hcs : ∀ c ∈ cs, Regional c) :
    ∀ {id i : Nat} {q : Progress}, Memory.AgreeOn m m' id (id + Node.sizeAll cs) →
      HoldsAt m clock cs id i q → HoldsAt m' clock cs id i q := by
  induction cs with
  | nil => intro id i q _ h; exact h
  | cons c cs ih =>
    intro id i q hm h
    have hsize : id + c.size + Node.sizeAll cs = id + Node.sizeAll (c :: cs) := by
      rw [Node.sizeAll, Nat.add_assoc]
    have hc : Memory.AgreeOn m m' id (id + c.size) := hm.mono (Nat.le_refl _) (by omega)
    have hrest : Memory.AgreeOn m m' (id + c.size) (id + c.size + Node.sizeAll cs) :=
      hm.mono (by omega) (by omega)
    cases i with
    | zero =>
      simp only [HoldsAt] at h ⊢
      exact ⟨hcs c List.mem_cons_self hc h.1, h.2.congr hrest⟩
    | succ i =>
      simp only [HoldsAt] at h ⊢
      exact ⟨h.1.congr hc, ih (fun d hd => hcs d (List.mem_cons_of_mem _ hd)) hrest h.2⟩

theorem HoldsEach.congr_of_regional {cs : List Node} (hcs : ∀ c ∈ cs, Regional c) :
    ∀ {id : Nat} {ps : List (Option Progress)}, Memory.AgreeOn m m' id (id + Node.sizeAll cs) →
      HoldsEach m clock cs id ps → HoldsEach m' clock cs id ps := by
  induction cs with
  | nil =>
    intro id ps _ h
    cases ps with
    | nil => simp only [HoldsEach]
    | cons p ps => simp only [HoldsEach] at h
  | cons c cs ih =>
    intro id ps hm h
    have hsize : id + c.size + Node.sizeAll cs = id + Node.sizeAll (c :: cs) := by
      rw [Node.sizeAll, Nat.add_assoc]
    cases ps with
    | nil => simp only [HoldsEach] at h
    | cons p ps =>
      simp only [HoldsEach] at h ⊢
      exact ⟨hcs c List.mem_cons_self (hm.mono (Nat.le_refl _) (by omega)) h.1,
        ih (fun d hd => hcs d (List.mem_cons_of_mem _ hd)) (hm.mono (by omega) (by omega)) h.2⟩

/-- Agreement on the region of a node, split into its own note and the region of its children. -/
theorem Memory.AgreeOn.split {n : Node} {id : Nat} (hm : Memory.AgreeOn m m' id (id + n.size)) :
    m'.find? id = m.find? id ∧
      Memory.AgreeOn m m' (id + 1) (id + 1 + Node.sizeAll n.children) := by
  have hsize := n.size_eq_children
  exact ⟨hm id (Nat.le_refl _) (by omega), hm.mono (by omega) (by omega)⟩

/-- Every node is regional. -/
theorem regional (n : Node) : Regional n := by
  induction n with
  | leaf l =>
    rintro m m' clock id (_ | q) hm h
    · exact holds_none.mpr ((holds_none.mp h).congr hm)
    · cases q with
      | leaf => simpa only [Holds, hm.split.1] using h
      | _ => simp only [Holds] at h
  | sequence cs ih =>
    rintro m m' clock id (_ | q) hm h
    · exact holds_none.mpr ((holds_none.mp h).congr hm)
    · obtain ⟨i, q, rfl, hnote, hat⟩ := holds_sequence.mp h
      exact holds_sequence.mpr
        ⟨i, q, rfl, hm.split.1.trans hnote, HoldsAt.congr_of_regional ih hm.split.2 hat⟩
  | selector cs ih =>
    rintro m m' clock id (_ | q) hm h
    · exact holds_none.mpr ((holds_none.mp h).congr hm)
    · obtain ⟨i, q, rfl, hnote, hat⟩ := holds_selector.mp h
      exact holds_selector.mpr
        ⟨i, q, rfl, hm.split.1.trans hnote, HoldsAt.congr_of_regional ih hm.split.2 hat⟩
  | decorated d c ih =>
    rintro m m' clock id (_ | q) hm h
    · exact holds_none.mpr ((holds_none.mp h).congr hm)
    · have hc : Memory.AgreeOn m m' (id + 1) (id + 1 + c.size) := hm.split.2
      -- a state of another kind of node is none of this decorator, and `h` is absurd
      cases d <;> cases q <;> simp only [Holds, hm.split.1] at h ⊢
      case inverter.inverter => exact ⟨h.1, ih hc h.2⟩
      case repeated.repeated => exact ⟨h.1, h.2.1, ih hc h.2.2⟩
      case untilFail.untilFail => exact ⟨h.1, ih hc h.2⟩
      case timeout.timeout => exact ⟨h.1, ih hc h.2⟩
  | parallel threshold cs ih =>
    rintro m m' clock id (_ | q) hm h
    · exact holds_none.mpr ((holds_none.mp h).congr hm)
    · cases q with
      | parallel answers =>
        simp only [Holds, hm.split.1] at h ⊢
        exact ⟨h.1, h.2.1, HoldsEach.congr_of_regional ih hm.split.2 h.2.2⟩
      | _ => simp only [Holds] at h

/-- The state of a node is read off its region alone. -/
theorem Holds.congr {n : Node} {id : Nat} {p : Option Progress} (h : Holds m clock n id p)
    (hm : Memory.AgreeOn m m' id (id + n.size)) : Holds m' clock n id p :=
  regional n hm h

/-- Notes of children are read in their region only. -/
theorem HoldsEach.congr {cs : List Node} {id : Nat} {ps : List (Option Progress)}
    (h : HoldsEach m clock cs id ps) (hm : Memory.AgreeOn m m' id (id + Node.sizeAll cs)) :
    HoldsEach m' clock cs id ps :=
  HoldsEach.congr_of_regional (fun c _ => regional c) hm h

/-- Siblings in a blank region are all idle. -/
theorem HoldsEach.idle {cs : List Node} : ∀ {id : Nat}, m.BlankOn id (id + Node.sizeAll cs) →
    HoldsEach m clock cs id (List.replicate cs.length none) := by
  induction cs with
  | nil => intro id _; simp only [List.length_nil, List.replicate_zero, HoldsEach]
  | cons c cs ih =>
    intro id h
    rw [Node.sizeAll] at h
    simp only [List.length_cons, List.replicate_succ, HoldsEach]
    exact ⟨Holds.idle (h.mono (Nat.le_refl _) (by omega)), ih (h.mono (by omega) (by omega))⟩

theorem HoldsEach.length_eq {cs : List Node} : ∀ {id : Nat} {ps : List (Option Progress)},
    HoldsEach m clock cs id ps → ps.length = cs.length := by
  induction cs with
  | nil =>
    intro id ps h
    cases ps with
    | nil => rfl
    | cons p ps => simp only [HoldsEach] at h
  | cons c cs ih =>
    intro id ps h
    cases ps with
    | nil => simp only [HoldsEach] at h
    | cons p ps =>
      simp only [HoldsEach] at h
      simp only [List.length_cons, ih h.2]

end Herd
