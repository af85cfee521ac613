import Herd.Proofs.Run.Notes

/-!
# One tick of the notes is one tick of the state

`evaluate_tracks`: where the notes in the region of a node are its state, evaluating the
node answers what its `machine` answers, asks the same of the leaves in the same order,
leaves the new state as notes in the region, and touches no note outside.

Each composite is treated once, over children of which this is known (`Simulates`); the
tree only joins them. A body is followed up to the point where the node takes leave
(`TracksBody`), since that is where a node that is done drops what it left behind.
-/

namespace Herd

universe u

variable {σ : Type u}

theorem Status.ofBool_inj {a b : Bool} : Status.ofBool a = Status.ofBool b ↔ a = b := by
  cases a <;> cases b <;> decide

@[simp] theorem Status.ofBool_ne_running (b : Bool) : Status.ofBool b ≠ .running := by
  cases b <;> decide

@[simp] theorem Status.isDone_ofBool (b : Bool) : (Status.ofBool b).isDone = true := by
  cases b <;> rfl

/-- An evaluation of the node at `id` in tick `now`, from the notes `m`, did as the machine. -/
structure Tracks (now : Nat) (n : Node) (id : Nat) (m : Memory) (r : Status × Visit σ)
    (a : Answer Progress × σ) : Prop where
  status : r.1 = a.1.status
  leaves : r.2.leaves = a.2
  holds : Holds r.2.memory (now + 1) n id a.1.state?
  frame : Memory.AgreeOff m r.2.memory id (id + n.size)

/-- Both sides give one answer, and go on from one state of the leaves. -/
theorem Tracks.elim {now : Nat} {n : Node} {id : Nat} {m : Memory} {r : Status × Visit σ}
    {a : Answer Progress × σ} (h : Tracks now n id m r a) :
    ∃ answer w, r = (answer.status, w) ∧ a = (answer, w.leaves) ∧
      Holds w.memory (now + 1) n id answer.state? ∧ Memory.AgreeOff m w.memory id (id + n.size) :=
  ⟨a.1, r.2, Prod.ext h.status rfl, Prod.ext rfl h.leaves.symm, h.holds, h.frame⟩

/-- The same before the node takes leave: where it is done its region may be in any state. -/
structure TracksBody (now : Nat) (n : Node) (id : Nat) (m : Memory) (r : Status × Visit σ)
    (a : Answer Progress × σ) : Prop where
  status : r.1 = a.1.status
  leaves : r.2.leaves = a.2
  holds : ∀ q, a.1 = .running q → Holds r.2.memory (now + 1) n id (some q)
  frame : Memory.AgreeOff m r.2.memory id (id + n.size)

/-- What came before in the region of the node does not matter for the notes elsewhere. -/
theorem TracksBody.after {now : Nat} {n : Node} {id : Nat} {m m' : Memory} {r : Status × Visit σ}
    {a : Answer Progress × σ} (h : TracksBody now n id m' r a)
    (hm : Memory.AgreeOff m m' id (id + n.size)) : TracksBody now n id m r a :=
  ⟨h.status, h.leaves, h.holds, hm.trans h.frame⟩

/-- A body that tracks an answer does so when it has taken leave. -/
theorem TracksBody.settled {now : Nat} {n : Node} {id size : Nat} {v : Visit σ} {body : Evaluator σ}
    {a : Answer Progress × σ} (h : TracksBody now n id v.memory (body v) a)
    (hsize : size = n.size) : Tracks now n id v.memory (settled id size body v) a := by
  subst hsize
  obtain ⟨answer, s⟩ := a
  refine ⟨h.status, (Visit.leaves_settle ..).trans h.leaves, ?_,
    h.frame.trans (Visit.agreeOff_settle _ _ _ _)⟩
  have hstatus : (body v).1 = answer.status := h.status
  cases answer with
  | done b =>
    refine Holds.idle (Visit.blankOn_settle _ _ _ ?_)
    rw [hstatus]
    exact Status.isDone_ofBool b
  | running q =>
    show Holds ((body v).2.settle id n.size (body v).1).memory (now + 1) n id (some q)
    rw [hstatus]
    exact h.holds q rfl

/-- Evaluating the node does what its machine does, wherever and in whatever state it is. -/
def Simulates (leaf : LeafEvaluator σ) (now : Nat) (n : Node) : Prop :=
  ∀ (id : Nat) (v : Visit σ) (p : Option Progress), Holds v.memory now n id p →
    Tracks now n id v.memory (evaluate leaf now n id v) (machine leaf n id p v.leaves)

variable {leaf : LeafEvaluator σ} {now : Nat}

/-! ## Sequence and selector -/

/-- Siblings from `first` on, of which `base` were passed before, ran in order for the node at
`id`: the one that stopped them is in progress and noted. -/
structure TracksOrdered (now : Nat) (cs : List Node) (first id base : Nat) (m : Memory)
    (r : Status × Visit σ) (a : Answer Progress × σ) : Prop where
  status : r.1 = a.1.status
  leaves : r.2.leaves = a.2
  holds : ∀ p, a.1 = .running p → ∃ i q, p = .ordered (base + i) q ∧
    r.2.memory.find? id = some (.cursor (base + i)) ∧ HoldsAt r.2.memory (now + 1) cs first i q
  frame : ∀ k : Nat, k ≠ id → k < first ∨ first + Node.sizeAll cs ≤ k →
    r.2.memory.find? k = m.find? k

/-- A sibling in front that is idle and stays so only moves the index on. -/
theorem TracksOrdered.skip {c : Node} {cs : List Node} {first id base : Nat} {m : Memory}
    {r : Status × Visit σ} {a : Answer Progress × σ}
    (h : TracksOrdered now cs (first + c.size) id (base + 1) m r a) (hid : id < first)
    (hblank : m.BlankOn first (first + c.size)) :
    TracksOrdered now (c :: cs) first id base m r a := by
  have hsize : first + c.size + Node.sizeAll cs = first + Node.sizeAll (c :: cs) := by
    rw [Node.sizeAll, Nat.add_assoc]
  obtain ⟨hstatus, hleaves, hholds, hframe⟩ := h
  refine ⟨hstatus, hleaves, fun p hp => ?_, fun k hk hout => hframe k hk (by omega)⟩
  obtain ⟨i, q, rfl, hcursor, hat⟩ := hholds p hp
  have hindex : base + 1 + i = base + (i + 1) := by omega
  rw [hindex] at hcursor ⊢
  refine ⟨i + 1, q, rfl, hcursor, ?_⟩
  simp only [HoldsAt]
  exact ⟨fun k h₁ h₂ => (hframe k (by omega) (by omega)).trans (hblank k h₁ h₂), hat⟩

/-- One child in whatever state, then siblings of which it is known what they do when idle. -/
theorem ordered_cons {goOn : Bool} {c : Node} {cs : List Node} {first id base : Nat}
    (hc : Simulates leaf now c)
    (hcs : ∀ v : Visit σ, v.memory.BlankOn (first + c.size) (first + c.size + Node.sizeAll cs) →
      TracksOrdered now cs (first + c.size) id (base + 1) v.memory
        (ordered (.ofBool goOn) id (base + 1) (evaluators leaf now cs (first + c.size)) v)
        (Machine.ordered goOn (base + 1) (machines leaf cs (first + c.size)) none v.leaves))
    (hid : id < first) {v : Visit σ} {p : Option Progress} (hp : Holds v.memory now c first p)
    (hblank : v.memory.BlankOn (first + c.size) (first + c.size + Node.sizeAll cs)) :
    TracksOrdered now (c :: cs) first id base v.memory
      (ordered (.ofBool goOn) id base (evaluators leaf now (c :: cs) first) v)
      (Machine.ordered goOn base (machines leaf (c :: cs) first) p v.leaves) := by
  have hsize : first + c.size + Node.sizeAll cs = first + Node.sizeAll (c :: cs) := by
    rw [Node.sizeAll, Nat.add_assoc]
  obtain ⟨answer, w, hr, ha, hholds, hframe⟩ := (hc first v p hp).elim
  simp only [evaluators, machines, ordered, Machine.ordered, hr, ha]
  have hrest : w.memory.BlankOn (first + c.size) (first + c.size + Node.sizeAll cs) :=
    hblank.congr (hframe.agreeOn (by omega))
  cases answer with
  | running q =>
    have hnote := w.agreeOff_remember id (.cursor base)
    simp only [Answer.status, (Status.ofBool_ne_running goOn).symm, if_false, if_true]
    refine ⟨rfl, rfl, fun p hp => ?_, fun k hk hout => ?_⟩
    · obtain rfl : Progress.ordered base q = p := by simpa using hp
      refine ⟨0, q, rfl, Visit.find?_remember_self .., ?_⟩
      simp only [HoldsAt]
      exact ⟨hholds.congr (hnote.agreeOn (by omega)), hrest.congr (hnote.agreeOn (by omega))⟩
    · exact (hnote k (by omega)).trans (hframe k (by omega))
  | done b =>
    -- the child is idle again, so the others run as if it had not been there
    simp only [Answer.status, Status.ofBool_inj, Status.ofBool_ne_running, if_false]
    by_cases hb : b = goOn
    · rw [if_pos hb, if_pos hb]
      obtain ⟨hstatus, hleaves, hholds', hframe'⟩ := (hcs w hrest).skip hid (holds_none.mp hholds)
      refine ⟨hstatus, hleaves, hholds', fun k hk hout => ?_⟩
      rw [hframe' k hk hout]
      exact hframe k (by omega)
    · rw [if_neg hb, if_neg hb]
      exact ⟨rfl, rfl, fun p hp => by simp at hp, fun k hk hout => hframe k (by omega)⟩

/-- Siblings that are all idle. -/
theorem ordered_idle {goOn : Bool} {cs : List Node} (hcs : ∀ c ∈ cs, Simulates leaf now c)
    {id : Nat} : ∀ {first base : Nat} {v : Visit σ}, id < first →
      v.memory.BlankOn first (first + Node.sizeAll cs) →
      TracksOrdered now cs first id base v.memory
        (ordered (.ofBool goOn) id base (evaluators leaf now cs first) v)
        (Machine.ordered goOn base (machines leaf cs first) none v.leaves) := by
  induction cs with
  | nil =>
    intro first base v _ _
    simp only [evaluators, machines, ordered, Machine.ordered]
    exact ⟨rfl, rfl, fun p hp => by simp at hp, fun k _ _ => rfl⟩
  | cons c cs ih =>
    intro first base v hid hblank
    rw [Node.sizeAll, ← Nat.add_assoc] at hblank
    refine ordered_cons (hcs c List.mem_cons_self) (fun w hw => ?_) hid
      (Holds.idle (hblank.mono (Nat.le_refl _) (by omega))) (hblank.mono (by omega) (Nat.le_refl _))
    exact ih (fun d hd => hcs d (List.mem_cons_of_mem _ hd)) (by omega) hw

/-- Siblings of which the one at index `i` is in progress are taken up there. -/
theorem ordered_resumed (goOn : Bool) {cs : List Node} (hcs : ∀ c ∈ cs, Simulates leaf now c)
    {id : Nat} {q : Progress} : ∀ {first : Nat} (base : Nat) {i : Nat} {v : Visit σ}, id < first →
      HoldsAt v.memory now cs first i q →
      TracksOrdered now cs first id base v.memory
        (ordered (.ofBool goOn) id (base + i) ((evaluators leaf now cs first).drop i) v)
        (Machine.ordered goOn (base + i) ((machines leaf cs first).drop i) (some q) v.leaves) := by
  induction cs with
  | nil => intro first base i v _ h; simp only [HoldsAt] at h
  | cons c cs ih =>
    intro first base i v hid h
    have htail : ∀ d ∈ cs, Simulates leaf now d := fun d hd => hcs d (List.mem_cons_of_mem _ hd)
    -- the siblings that were passed are blank, so the run is that of the tail with the index moved
    cases i with
    | zero =>
      simp only [HoldsAt] at h
      exact ordered_cons (hcs c List.mem_cons_self)
        (fun w hw => ordered_idle htail (by omega) hw) hid h.1 h.2
    | succ i =>
      simp only [HoldsAt] at h
      have hindex : base + (i + 1) = base + 1 + i := by omega
      rw [hindex]
      simp only [evaluators, machines, List.drop_succ_cons]
      exact (ih htail (base + 1) (by omega) h.2).skip hid h.1

/-- A sequence or selector, entered or taken up. -/
theorem resumed_tracks (goOn : Bool) {n : Node} {cs : List Node}
    (hsize : n.size = Node.sizeAll cs + 1) (hcs : ∀ c ∈ cs, Simulates leaf now c)
    (hholds : ∀ {m clock id p}, Holds m clock n id (some p) ↔ HoldsOrdered m clock cs id p)
    {id : Nat} {v : Visit σ} {p : Option Progress} (hp : Holds v.memory now n id p) :
    TracksBody now n id v.memory
      (resumed (.ofBool goOn) id (evaluators leaf now cs (id + 1)) v)
      (Machine.resumed goOn (machines leaf cs (id + 1)) p v.leaves) := by
  have h : TracksOrdered now cs (id + 1) id 0 v.memory
      (resumed (.ofBool goOn) id (evaluators leaf now cs (id + 1)) v)
      (Machine.resumed goOn (machines leaf cs (id + 1)) p v.leaves) := by
    rcases p with _ | p
    · have hblank := holds_none.mp hp
      have hcursor : v.cursorAt id = 0 := by
        rw [Visit.cursorAt, hblank id (Nat.le_refl _) (by omega)]
      simp only [resumed, Machine.resumed, hcursor, List.drop_zero]
      exact ordered_idle hcs (by omega) (hblank.mono (by omega) (by omega))
    · obtain ⟨i, q, rfl, hnote, hat⟩ := hholds.mp hp
      have hcursor : v.cursorAt id = i := by rw [Visit.cursorAt, hnote]
      simpa only [resumed, Machine.resumed, hcursor, Nat.zero_add] using
        ordered_resumed goOn hcs 0 (Nat.lt_succ_self id) hat
  obtain ⟨hstatus, hleaves, hrunning, hframe⟩ := h
  refine ⟨hstatus, hleaves, fun q hq => ?_, fun k hk => hframe k (by omega) (by omega)⟩
  obtain ⟨i, q', rfl, hnote, hat⟩ := hrunning q hq
  exact hholds.mpr ⟨0 + i, q', rfl, hnote, by simpa using hat⟩

/-! ## Parallel -/

/-- The children that are not done run, each from its own state. -/
theorem fill_tracks {cs : List Node} (hcs : ∀ c ∈ cs, Simulates leaf now c) :
    ∀ {first : Nat} {slots : List (Answer (Option Progress))} {v : Visit σ},
      HoldsEach v.memory now cs first (slots.map fun a => a.state?.join) →
      ∃ (answers : List (Answer Progress)) (w : Visit σ),
        fillSlots (slots.map Answer.verdict?) (evaluators leaf now cs first) v =
          (answers.map Answer.verdict?, w) ∧
        Machine.fill slots (machines leaf cs first) v.leaves = (answers, w.leaves) ∧
        HoldsEach w.memory (now + 1) cs first (answers.map Answer.state?) ∧
        Memory.AgreeOff v.memory w.memory first (first + Node.sizeAll cs) := by
  induction cs with
  | nil =>
    intro first slots v h
    cases slots with
    | nil => exact ⟨[], v, rfl, rfl, by simp only [List.map_nil, HoldsEach], .refl _ _ _⟩
    | cons a slots => simp only [List.map_cons, HoldsEach] at h
  | cons c cs ih =>
    intro first slots v h
    have hsize : first + c.size + Node.sizeAll cs = first + Node.sizeAll (c :: cs) := by
      rw [Node.sizeAll, Nat.add_assoc]
    have htail : ∀ d ∈ cs, Simulates leaf now d := fun d hd => hcs d (List.mem_cons_of_mem _ hd)
    cases slots with
    | nil => simp only [List.map_nil, HoldsEach] at h
    | cons a slots =>
      simp only [List.map_cons, HoldsEach] at h
      obtain ⟨hc, hrest⟩ := h
      cases a with
      | done b =>
        -- a child that is done is not run, and no sibling touches its region
        obtain ⟨answers, w, hfill, hmachine, hholds, hframe⟩ := ih htail hrest
        refine ⟨.done b :: answers, w, ?_, ?_, ?_, hframe.mono (by omega) (by omega)⟩
        · simp only [List.map_cons, Answer.verdict?, evaluators, fillSlots, hfill]
        · simp only [machines, Machine.fill, hmachine]
        · simp only [List.map_cons, HoldsEach]
          exact ⟨Holds.idle ((holds_none.mp hc).congr (hframe.agreeOn (by omega))), hholds⟩
      | running p =>
        obtain ⟨answer, u, hr, ha, hchild, hframe⟩ := (hcs c List.mem_cons_self first v p hc).elim
        obtain ⟨answers, w, hfill, hmachine, hholds, hframe'⟩ :=
          ih htail (hrest.congr (hframe.agreeOn (by omega)))
        refine ⟨answer :: answers, w, ?_, ?_, ?_, ?_⟩
        · have hslot : (if answer.status.isDone then some answer.status else none) =
              answer.verdict? := by
            cases answer with
            | done b => simp [Answer.status, Answer.verdict?]
            | running q => rfl
          simp only [List.map_cons, Answer.verdict?, evaluators, fillSlots, hr, hfill] at hslot ⊢
          rw [hslot]
        · simp only [machines, Machine.fill, ha, hmachine]
        · simp only [List.map_cons, HoldsEach]
          exact ⟨hchild.congr (hframe'.agreeOn (by omega)), hholds⟩
        · exact (hframe.mono (by omega) (by omega)).trans (hframe'.mono (by omega) (by omega))

theorem all_isSome_iff {slots : List (Option Status)} :
    slots.all Option.isSome = true ↔ none ∉ slots := by
  rw [List.all_eq_true]
  constructor
  · intro h hnone
    exact absurd (h none hnone) (by decide)
  · intro h slot hslot
    cases slot with
    | none => exact absurd hslot h
    | some status => rfl

/-- The two readings of the verdicts of all children are one. -/
theorem conclude_status (threshold : Nat) (answers : List (Answer Progress)) :
    parallelStatus threshold (answers.map Answer.verdict?) =
      (Machine.conclude threshold answers).status := by
  simp only [parallelStatus, Machine.conclude, List.length_map, all_isSome_iff]
  split
  · rfl
  · split <;> rfl

/-- A parallel node that goes on has all answers as its progress. -/
theorem conclude_eq_running {threshold : Nat} {answers : List (Answer Progress)} {q : Progress}
    (h : Machine.conclude threshold answers = .running q) : q = .parallel answers := by
  simp only [Machine.conclude] at h
  split at h
  · cases h
  · split at h
    · cases h
    · injection h with h
      exact h.symm

@[simp] theorem length_evaluators (cs : List Node) (first : NodeId) :
    (evaluators leaf now cs first).length = cs.length := by
  induction cs generalizing first with
  | nil => rfl
  | cons c cs ih => simp only [evaluators, List.length_cons, ih]

@[simp] theorem length_machines (cs : List Node) (first : NodeId) :
    (machines leaf cs first).length = cs.length := by
  induction cs generalizing first with
  | nil => rfl
  | cons c cs ih => simp only [machines, List.length_cons, ih]

/-- A parallel node from the slots of its children, wherever these come from. -/
theorem parallel_of_slots {threshold : Nat} {cs : List Node}
    (hcs : ∀ c ∈ cs, Simulates leaf now c) {id : Nat} {v : Visit σ}
    {slots : List (Answer (Option Progress))}
    (hslots : v.slotsAt id cs.length = slots.map Answer.verdict?)
    (hholds : HoldsEach v.memory now cs (id + 1) (slots.map fun a => a.state?.join)) :
    TracksBody now (.parallel threshold cs) id v.memory
      (parallel threshold id (evaluators leaf now cs (id + 1)) v)
      (match Machine.fill slots (machines leaf cs (id + 1)) v.leaves with
        | (answers, s) => (Machine.conclude threshold answers, s)) := by
  have hforget := v.agreeOff_forget id
  obtain ⟨answers, w, hfill, hmachine, hholds', hframe⟩ :=
    fill_tracks hcs (v := v.forget id) (hholds.congr (hforget.agreeOn (by omega)))
  rw [Visit.leaves_forget] at hmachine
  have hsize : (Node.parallel threshold cs).size = Node.sizeAll cs + 1 := rfl
  have hframe' : Memory.AgreeOff v.memory w.memory id (id + (Node.parallel threshold cs).size) :=
    (hforget.mono (Nat.le_refl _) (by omega)).trans (hframe.mono (by omega) (by omega))
  have hstatus := conclude_status threshold answers
  simp only [parallel, length_evaluators, hslots, hfill, hmachine]
  cases hanswer : Machine.conclude threshold answers with
  | done b =>
    -- children may be left running here; their notes go when the node takes leave
    rw [hanswer] at hstatus
    have hnone : ∀ q, (Answer.done b : Answer Progress) = .running q → False := by
      intro q hq
      cases hq
    cases b
    · simp only [hstatus]
      exact ⟨rfl, rfl, fun q hq => (hnone q hq).elim, hframe'⟩
    · simp only [hstatus]
      exact ⟨rfl, rfl, fun q hq => (hnone q hq).elim, hframe'⟩
  | running q =>
    rw [hanswer] at hstatus
    have hnote := w.agreeOff_remember id (.finished (answers.map Answer.verdict?))
    simp only [hstatus]
    refine ⟨rfl, rfl, fun q' hq => ?_, hframe'.trans (hnote.mono (Nat.le_refl _) (by omega))⟩
    obtain rfl : q = q' := by simpa using hq
    obtain rfl := conclude_eq_running hanswer
    simp only [Holds]
    exact ⟨Visit.find?_remember_self .., hstatus, hholds'.congr (hnote.agreeOn (by omega))⟩

/-- A parallel node, entered or taken up. -/
theorem parallel_tracks {threshold : Nat} {cs : List Node} (hcs : ∀ c ∈ cs, Simulates leaf now c)
    {id : Nat} {v : Visit σ} {p : Option Progress}
    (hp : Holds v.memory now (.parallel threshold cs) id p) :
    TracksBody now (.parallel threshold cs) id v.memory
      (parallel threshold id (evaluators leaf now cs (id + 1)) v)
      (Machine.parallel threshold (machines leaf cs (id + 1)) p v.leaves) := by
  have hsize : (Node.parallel threshold cs).size = Node.sizeAll cs + 1 := rfl
  rcases p with _ | p
  · have hblank := holds_none.mp hp
    simp only [Machine.parallel, length_machines]
    refine parallel_of_slots hcs ?_ ?_
    · rw [Visit.slotsAt, hblank id (Nat.le_refl _) (by omega), List.map_replicate, Answer.verdict?]
    · rw [List.map_replicate]
      exact HoldsEach.idle (hblank.mono (by omega) (by omega))
  · cases p with
    | parallel answers =>
      simp only [Holds] at hp
      obtain ⟨hnote, -, heach⟩ := hp
      have hlength : answers.length = cs.length := by simpa using heach.length_eq
      simp only [Machine.parallel]
      have hverdicts : (answers.map (Answer.map some)).map Answer.verdict? =
          answers.map Answer.verdict? := by
        rw [List.map_map]
        exact List.map_congr_left fun a _ => by cases a <;> rfl
      have hstates : (answers.map (Answer.map some)).map (fun a => a.state?.join) =
          answers.map Answer.state? := by
        rw [List.map_map]
        exact List.map_congr_left fun a _ => by cases a <;> rfl
      refine parallel_of_slots hcs ?_ ?_
      · simp only [Visit.slotsAt, hnote, hverdicts, List.length_map, hlength, if_true]
      · rw [hstates]
        exact heach
    | _ => simp only [Holds] at hp

/-! ## Decorators -/

section Decorated

variable {c : Node} {id : Nat} {v : Visit σ}

/-- What changes the region of the child changes the region of the decorator only. -/
theorem Memory.AgreeOff.under {d : Decorator} {m m' : Memory}
    (h : Memory.AgreeOff m m' (id + 1) (id + 1 + c.size)) :
    Memory.AgreeOff m m' id (id + (Node.decorated d c).size) := by
  have hsize : (Node.decorated d c).size = c.size + 1 := rfl
  exact h.mono (by omega) (by omega)

/-- Where a decorator is idle it has no note, and its child is idle. -/
theorem Holds.below_idle {d : Decorator} {m : Memory} {clock : Nat}
    (h : Holds m clock (.decorated d c) id none) :
    m.find? id = none ∧ Holds m clock c (id + 1) none := by
  have hsize : (Node.decorated d c).size = c.size + 1 := rfl
  have hblank := holds_none.mp h
  exact ⟨hblank id (by omega) (by omega), Holds.idle (hblank.mono (by omega) (by omega))⟩

/-- An inverter tracks its answer if its child does. -/
theorem inverted_tracks (hc : Simulates leaf now c) {p : Option Progress}
    (hself : v.memory.find? id = none) (hp : Holds v.memory now c (id + 1) p) :
    TracksBody now (.decorated .inverter c) id v.memory
      (decorate now id (evaluate leaf now c (id + 1)) .inverter v)
      (Machine.inverted (machine leaf c (id + 1)) p v.leaves) := by
  obtain ⟨answer, w, hr, ha, hholds, hframe⟩ := (hc (id + 1) v p hp).elim
  simp only [decorate, Machine.inverted, hr, ha]
  cases answer with
  | done b =>
    refine ⟨?_, rfl, fun q hq => by simp at hq, hframe.under⟩
    cases b <;> rfl
  | running q =>
    refine ⟨rfl, rfl, fun q' hq => ?_, hframe.under⟩
    obtain rfl : Progress.inverter q = q' := by simpa using hq
    simp only [Holds]
    exact ⟨(hframe id (.inl (Nat.lt_succ_self id))).trans hself, hholds⟩

theorem untilFail_tracks (hc : Simulates leaf now c) {p : Option Progress}
    (hself : v.memory.find? id = none) (hp : Holds v.memory now c (id + 1) p) :
    TracksBody now (.decorated .untilFail c) id v.memory
      (decorate now id (evaluate leaf now c (id + 1)) .untilFail v)
      (Machine.untilFail (machine leaf c (id + 1)) p v.leaves) := by
  obtain ⟨answer, w, hr, ha, hholds, hframe⟩ := (hc (id + 1) v p hp).elim
  have hself' : w.memory.find? id = none := (hframe id (.inl (Nat.lt_succ_self id))).trans hself
  simp only [decorate, Machine.untilFail, hr, ha]
  cases answer with
  | done b =>
    cases b
    · exact ⟨rfl, rfl, fun q hq => by simp at hq, hframe.under⟩
    · -- in progress over an idle child: no note is left in the whole region
      refine ⟨rfl, rfl, fun q' hq => ?_, hframe.under⟩
      obtain rfl : Progress.untilFail none = q' := by simpa using hq
      simp only [Holds]
      exact ⟨hself', holds_none.mp hholds⟩
  | running q =>
    refine ⟨rfl, rfl, fun q' hq => ?_, hframe.under⟩
    obtain rfl : Progress.untilFail (some q) = q' := by simpa using hq
    simp only [Holds]
    exact ⟨hself', hholds⟩

/-- The child may run several times; from the second on it starts idle. -/
theorem repeatChild_tracks {count : Nat} (hc : Simulates leaf now c) :
    ∀ {remaining successes : Nat} {v : Visit σ} {p : Option Progress},
      successes + remaining = count → Holds v.memory now c (id + 1) p →
      TracksBody now (.decorated (.repeated count) c) id v.memory
        (repeatChild id (evaluate leaf now c (id + 1)) remaining successes v)
        (Machine.repeatChild (machine leaf c (id + 1)) remaining successes p v.leaves) := by
  intro remaining
  induction remaining with
  | zero =>
    intro successes v p _ _
    exact ⟨rfl, rfl, fun q hq => by simp [Machine.repeatChild] at hq, .refl _ _ _⟩
  | succ remaining ih =>
    intro successes v p hcount hp
    obtain ⟨answer, w, hr, ha, hholds, hframe⟩ := (hc (id + 1) v p hp).elim
    simp only [repeatChild, Machine.repeatChild, hr, ha]
    cases answer with
    | done b =>
      cases b
      · exact ⟨rfl, rfl, fun q hq => by simp at hq, hframe.under⟩
      · -- the state held for the next tick, but an idle child is idle at any clock
        have hidle : Holds w.memory now c (id + 1) none := Holds.idle (holds_none.mp hholds)
        exact (ih (by omega) hidle).after hframe.under
    | running q =>
      have hnote := w.agreeOff_remember id (.iterations successes)
      refine ⟨rfl, rfl, fun q' hq => ?_, hframe.under.trans (hnote.mono (Nat.le_refl _) ?_)⟩
      · obtain rfl : Progress.repeated successes q = q' := by simpa using hq
        simp only [Holds]
        exact ⟨Visit.find?_remember_self .., by omega, hholds.congr (hnote.agreeOn (by omega))⟩
      · have := (Node.decorated (.repeated count) c).size_pos
        omega

/-- The child was entered at `started`, which is `spent` ticks ago. -/
theorem timeout_tracks {ticks started spent : Nat} (hc : Simulates leaf now c)
    {p : Option Progress} (hstarted : v.startedAt id now = started)
    (hspent : started + spent = now) (hp : Holds v.memory now c (id + 1) p) :
    TracksBody now (.decorated (.timeout ticks) c) id v.memory
      (decorate now id (evaluate leaf now c (id + 1)) (.timeout ticks) v)
      (Machine.timeout (machine leaf c (id + 1)) ticks spent p v.leaves) := by
  have helapsed : now - started = spent := by omega
  simp only [decorate, Machine.timeout, hstarted, helapsed]
  by_cases hticks : ticks ≤ spent
  · rw [if_pos hticks, if_pos hticks]
    exact ⟨rfl, rfl, fun q hq => by simp at hq, .refl _ _ _⟩
  · rw [if_neg hticks, if_neg hticks]
    obtain ⟨answer, w, hr, ha, hholds, hframe⟩ := (hc (id + 1) v p hp).elim
    simp only [hr, ha]
    cases answer with
    | done b =>
      cases b
      · exact ⟨rfl, rfl, fun q hq => by simp at hq, hframe.under⟩
      · exact ⟨rfl, rfl, fun q hq => by simp at hq, hframe.under⟩
    | running q =>
      have hnote := w.agreeOff_remember id (.startedAt started)
      refine ⟨rfl, rfl, fun q' hq => ?_, hframe.under.trans (hnote.mono (Nat.le_refl _) ?_)⟩
      · obtain rfl : Progress.timeout (spent + 1) q = q' := by simpa using hq
        simp only [Holds]
        exact ⟨⟨started, Visit.find?_remember_self .., by omega⟩,
          hholds.congr (hnote.agreeOn (by omega))⟩
      · have := (Node.decorated (.timeout ticks) c).size_pos
        omega

/-- A child under a decorator, entered or taken up. -/
theorem decorated_tracks {d : Decorator} (hc : Simulates leaf now c) {p : Option Progress}
    (hp : Holds v.memory now (.decorated d c) id p) :
    TracksBody now (.decorated d c) id v.memory
      (decorate now id (evaluate leaf now c (id + 1)) d v)
      (Machine.decorated (machine leaf c (id + 1)) d p v.leaves) := by
  rcases p with _ | p
  · obtain ⟨hself, hidle⟩ := hp.below_idle
    cases d with
    | inverter => exact inverted_tracks hc hself hidle
    | untilFail => exact untilFail_tracks hc hself hidle
    | repeated count =>
      have hdone : v.iterationsAt id = 0 := by rw [Visit.iterationsAt, hself]
      simp only [decorate, Machine.decorated, hdone]
      exact repeatChild_tracks hc (Nat.zero_add _) hidle
    | timeout ticks =>
      have hstarted : v.startedAt id now = now := by rw [Visit.startedAt, hself]
      exact timeout_tracks hc hstarted (Nat.add_zero _) hidle
  · cases d <;> cases p <;> simp only [Holds] at hp
    case inverter.inverter => exact inverted_tracks hc hp.1 hp.2
    case untilFail.untilFail => exact untilFail_tracks hc hp.1 hp.2
    case repeated.repeated count successes q =>
      have hdone : v.iterationsAt id = successes := by rw [Visit.iterationsAt, hp.1]
      simp only [decorate, Machine.decorated, hdone]
      exact repeatChild_tracks hc (by omega) hp.2.2
    case timeout.timeout ticks spent q =>
      obtain ⟨⟨started, hnote, hspent⟩, hchild⟩ := hp
      have hstarted : v.startedAt id now = started := by rw [Visit.startedAt, hnote]
      exact timeout_tracks hc hstarted hspent hchild

end Decorated

/-! ## The whole tree -/

/-- **Evaluation is the machine on notes**: for every node, wherever it lies and whatever state it
is in, one evaluation does to the notes of its region what its machine does to its state. -/
theorem evaluate_tracks (leaf : LeafEvaluator σ) (now : Nat) (n : Node) : Simulates leaf now n := by
  induction n with
  | leaf l =>
    intro id v p hp
    simp only [evaluate, machine]
    refine TracksBody.settled ?_ rfl
    have hself : v.memory.find? id = none := by
      rcases p with _ | q
      · exact holds_none.mp hp id (Nat.le_refl _) (Nat.lt_succ_self id)
      · cases q with
        | leaf => simpa only [Holds] using hp
        | _ => simp only [Holds] at hp
    -- whatever the leaf answers, it leaves no note
    generalize leaf id l v.leaves = answer
    obtain ⟨status, s⟩ := answer
    refine ⟨?_, rfl, fun q hq => ?_, .refl _ _ _⟩
    · cases status <;> rfl
    · cases status <;> cases hq
      simpa only [Holds] using hself
  | sequence cs ih =>
    intro id v p hp
    simp only [evaluate, machine]
    exact (resumed_tracks true rfl ih holds_sequence hp).settled rfl
  | selector cs ih =>
    intro id v p hp
    simp only [evaluate, machine]
    exact (resumed_tracks false rfl ih holds_selector hp).settled rfl
  | decorated d c ih =>
    intro id v p hp
    simp only [evaluate, machine]
    exact (decorated_tracks ih hp).settled rfl
  | parallel threshold cs ih =>
    intro id v p hp
    simp only [evaluate, machine]
    exact (parallel_tracks ih hp).settled rfl

end Herd
