import Herd.Proofs.Run.Underway

/-!
# The course of an evaluation

`attest_course`: the evaluation of a node that is blank or in progress leaves it blank or in
progress, for the next tick. Each evaluation that it enters in the log is `Sound`, which says of a
parallel node and of a timeout what they answer in view of the log before; and it turns to each node
that was in progress in its subtree (`Log.Met`).

Composites are treated over children of which this is known (`Proceeds`). What siblings do is
nothing to the region of a child, so each child is found as it was left.
-/

namespace Herd

universe u

/-! ## Sound evaluations -/

/-- A parallel node answered what the slots of its children come to. -/
def Evaluation.Decided (e : Evaluation) (threshold : Nat) (cs : List Node) (pre : Log) : Prop :=
  ∃ slots, pre.SlotsTold e.id cs (e.id + 1) slots ∧ e.status = parallelStatus threshold slots

/-- A timeout that was entered at `started` was evaluated with a note of that, if it was entered in
an earlier tick. It had a tick left and answered what its child did, which it evaluated; or it had
none and failed without evaluating the child. -/
structure Evaluation.Timed (e : Evaluation) (ticks : Nat) (pre : Log) (started : Nat) : Prop where
  pos : 1 ≤ started
  le_tick : started ≤ e.tick
  note : e.note = if started = e.tick then none else some (.startedAt started)
  own : (pre.since e.id e.id).ticks = List.range' started (e.tick - started)
  child : (e.tick < started + ticks ∧ ∃ (d : Evaluation) (rest : Log),
      pre.since e.id (e.id + 1) = d :: rest ∧ d.tick = e.tick ∧ d.status = e.status ∧
      rest.ticks = List.range' started (e.tick - started) ∧ rest.AllRunning) ∨
    (e.tick = started + ticks ∧ e.status = .failure ∧
      (pre.since e.id (e.id + 1)).ticks = List.range' started (e.tick - started) ∧
      (pre.since e.id (e.id + 1)).AllRunning)

/-- The evaluation is right in view of the log before it. -/
def Evaluation.Sound (e : Evaluation) (pre : Log) : Prop :=
  match e.node with
  | .parallel threshold cs => e.Decided threshold cs pre
  | .decorated (.timeout ticks) _ => ∃ started, e.Timed ticks pre started
  | _ => True

/-! ## Children of which it is known -/

variable {σ : Type u} {leaf : LeafEvaluator σ} {now : Nat}

/-- What an evaluation of the node at `id` in tick `now` comes to. -/
structure Course (now : Nat) (n : Node) (id : Nat) (v : Visit (σ × Log))
    (r : Status × Visit (σ × Log)) : Prop where
  running : r.1 = .running → Underway r.2.chronicle (now + 1) n id
  done : r.1.isDone = true → r.2.chronicle.BlankOn id (id + n.size)
  confined : Confined n id v r.2
  /-- To a node above it is one more evaluation. -/
  since : ∀ a, a < id → r.2.log.since a id = entry now n id v r.1 :: v.log.since a id
  sound : Log.Adds Evaluation.Sound v.log r.2.log
  met : ∀ a, id ≤ a → a < id + n.size → v.log.Open a → Log.Met a v.log r.2.log

/-- Evaluating the node takes its course, wherever it is and however it stands. -/
def Proceeds (leaf : LeafEvaluator σ) (now : Nat) (n : Node) : Prop :=
  ∀ (id : Nat) (v : Visit (σ × Log)), Stands v.chronicle now n id →
    Course now n id v (attest leaf now n id v)

section Node

variable (leaf now) (n : Node) (id : Nat) (v : Visit (σ × Log))

/-- A node that is done is blank. -/
theorem blankOn_attest (hdone : (attest leaf now n id v).1.isDone = true) :
    (attest leaf now n id v).2.chronicle.BlankOn id (id + n.size) := by
  have hlog := log_attest leaf now n id v
  constructor
  · rw [attest_eq] at hdone ⊢
    exact Visit.blankOn_settle _ _ _ hdone
  · intro a b hlo hhi _ _
    show Log.since a b (attest leaf now n id v).2.log = []
    rw [hlog]
    exact Log.since_cons_of_ends (Evaluation.ends_iff.mpr ⟨hdone, hlo, hhi⟩) b

/-- What a node is to nodes above it: one more evaluation. -/
theorem since_attest {a : Nat} (ha : a < id) :
    (attest leaf now n id v).2.log.since a id =
      entry now n id v (attest leaf now n id v).1 :: v.log.since a id := by
  have hbelow : (bodyOf leaf now id n v).2.log.since a id = v.log.since a id :=
    (bodyOf_confined leaf now n id v).within.since_eq (by omega) (by omega)
  have hends : (entry now n id v (attest leaf now n id v).1).ends a = false := by
    rw [← Bool.not_eq_true, Evaluation.ends_iff]
    rintro ⟨-, hle, -⟩
    exact absurd ha (Nat.not_lt_of_le hle)
  rw [log_attest]
  exact (Log.since_cons_self hends rfl).trans (congrArg _ hbelow)

end Node

/-! ## Sequence and selector -/

/-- Siblings from `first` on, of which `base` were passed before, ran in order for the node at
`id`: the one that stopped them is in progress and noted. -/
structure CourseInOrder (now : Nat) (cs : List Node) (first id base : Nat) (v : Visit (σ × Log))
    (r : Status × Visit (σ × Log)) : Prop where
  running : r.1 = .running → ∃ i, r.2.memory.find? id = some (.cursor (base + i)) ∧
    UnderwayAt r.2.chronicle (now + 1) cs first i
  sound : Log.Adds Evaluation.Sound v.log r.2.log
  met : ∀ a, first ≤ a → a < first + Node.sizeAll cs → v.log.Open a → Log.Met a v.log r.2.log

/-- Siblings that run in order are confined to their regions. -/
theorem ordered_confined (goOn : Status) (cs : List Node) (id first index i : Nat) :
    Moves (ConfinedAll id cs first)
      (ordered goOn id index ((attestAll leaf now cs first).drop i)) :=
  (passage_confinedAll id cs first).ordered goOn
    (fun f hf => attestAll_moves leaf now cs id first f (List.mem_of_mem_drop hf)) index

/-- One child however it stands, then siblings of which it is known what they do when blank. -/
theorem ordered_cons_course {goOn : Status} (hgoOn : goOn.isDone = true) {c : Node}
    {cs : List Node} {first id base : Nat} (hc : Proceeds leaf now c)
    (hcs : ∀ v : Visit (σ × Log),
      v.chronicle.BlankOn (first + c.size) (first + c.size + Node.sizeAll cs) →
      CourseInOrder now cs (first + c.size) id (base + 1) v
        (ordered goOn id (base + 1) (attestAll leaf now cs (first + c.size)) v))
    (hid : id < first) {v : Visit (σ × Log)} (hstands : Stands v.chronicle now c first)
    (hblank : v.chronicle.BlankOn (first + c.size) (first + c.size + Node.sizeAll cs)) :
    CourseInOrder now (c :: cs) first id base v
      (ordered goOn id base (attestAll leaf now (c :: cs) first) v) := by
  have hchild := hc first v hstands
  have hrest : Moves (ConfinedAll id cs (first + c.size))
      (ordered goOn id (base + 1) (attestAll leaf now cs (first + c.size))) :=
    ordered_confined goOn cs id (first + c.size) (base + 1) 0
  -- an open node lies below the child, since the siblings are blank
  have hmet : ∀ a, first ≤ a → a < first + Node.sizeAll (c :: cs) → v.log.Open a →
      Log.Met a v.log (attest leaf now c first v).2.log := by
    intro a hlo hhi hopen
    rw [Node.sizeAll] at hhi
    by_cases ha : a < first + c.size
    · exact hchild.met a hlo ha hopen
    · exact absurd hopen (hblank.not_open (by omega) (by omega))
  have hblank' := hblank.congr (hchild.confined.agreeOn (.inr (Nat.le_refl _)))
  simp only [attestAll, ordered]
  rcases hr : attest leaf now c first v with ⟨status, w⟩
  rw [hr] at hchild hmet hblank'
  have hcourse := hcs w hblank'
  by_cases hstatus : status = goOn
  · rw [if_pos hstatus]
    refine ⟨fun hrunning => ?_, hchild.sound.trans hcourse.sound, fun a hlo hhi hopen =>
      (hmet a hlo hhi hopen).later hcourse.sound⟩
    obtain ⟨i, hnote, hat⟩ := hcourse.running hrunning
    refine ⟨i + 1, by rw [hnote, Nat.add_assoc, Nat.add_comm 1 i], ?_⟩
    simp only [UnderwayAt]
    refine ⟨(hchild.done (hstatus ▸ hgoOn)).congr ?_, hat⟩
    exact (hrest w).agreeOn (.inl hid) (.inl (Nat.le_refl _))
  · rw [if_neg hstatus]
    by_cases hrunning : status = .running
    · rw [if_pos hrunning]
      refine ⟨fun _ => ⟨0, Visit.find?_remember_self .., ?_⟩, hchild.sound, hmet⟩
      simp only [UnderwayAt]
      exact ⟨(hchild.running hrunning).congr (w.agreeOn_remember _ (.inl hid)),
        hblank'.congr (w.agreeOn_remember _ (.inl (by omega)))⟩
    · rw [if_neg hrunning]
      exact ⟨fun h => absurd h hrunning, hchild.sound, hmet⟩

section Ordered

variable {goOn : Status} (hgoOn : goOn.isDone = true) {cs : List Node}
  (hcs : ∀ c ∈ cs, Proceeds leaf now c) {id : Nat}

include hgoOn hcs

/-- Siblings that are all blank. -/
theorem ordered_blank_course : ∀ {first base : Nat} {v : Visit (σ × Log)}, id < first →
    v.chronicle.BlankOn first (first + Node.sizeAll cs) →
    CourseInOrder now cs first id base v
      (ordered goOn id base (attestAll leaf now cs first) v) := by
  induction cs with
  | nil =>
    intro first base v _ hblank
    refine ⟨fun hrunning => ?_, .refl,
      fun a hlo hhi hopen => absurd hopen (hblank.not_open hlo hhi)⟩
    simp only [attestAll, ordered] at hrunning
    rw [hrunning] at hgoOn
    cases hgoOn
  | cons c cs ih =>
    intro first base v hid hblank
    rw [Node.sizeAll, ← Nat.add_assoc] at hblank
    refine ordered_cons_course hgoOn (hcs c List.mem_cons_self) (fun w hw => ?_) hid
      (.inl (hblank.mono (Nat.le_refl _) (by omega))) (hblank.mono (by omega) (Nat.le_refl _))
    exact ih (fun d hd => hcs d (List.mem_cons_of_mem _ hd)) (by omega) hw

/-- Siblings of which the one at index `i` is in progress are taken up there. -/
theorem ordered_resumed_course : ∀ {first : Nat} (base : Nat) {i : Nat} {v : Visit (σ × Log)},
    id < first → UnderwayAt v.chronicle now cs first i →
    CourseInOrder now cs first id base v
      (ordered goOn id (base + i) ((attestAll leaf now cs first).drop i) v) := by
  induction cs with
  | nil =>
    intro first base i v _ h
    simp only [UnderwayAt] at h
  | cons c cs ih =>
    intro first base i v hid h
    have htail : ∀ d ∈ cs, Proceeds leaf now d := fun d hd => hcs d (List.mem_cons_of_mem _ hd)
    cases i with
    | zero =>
      simp only [UnderwayAt] at h
      exact ordered_cons_course hgoOn (hcs c List.mem_cons_self)
        (fun w hw => ordered_blank_course hgoOn htail (by omega) hw) hid (.inr h.1) h.2
    | succ i =>
      -- the sibling in front is blank and stays so, which only moves the index on
      simp only [UnderwayAt] at h
      have hindex : base + (i + 1) = base + 1 + i := by omega
      simp only [attestAll, List.drop_succ_cons, hindex]
      have hcourse := ih htail (base + 1) (by omega) h.2
      have hconfined : Moves (ConfinedAll id cs (first + c.size)) (ordered goOn id (base + 1 + i)
          ((attestAll leaf now cs (first + c.size)).drop i)) :=
        ordered_confined goOn cs id (first + c.size) (base + 1 + i) i
      refine ⟨fun hrunning => ?_, hcourse.sound, fun a hlo hhi hopen => ?_⟩
      · obtain ⟨j, hnote, hat⟩ := hcourse.running hrunning
        refine ⟨j + 1, by rw [hnote, Nat.add_assoc, Nat.add_comm 1 j], ?_⟩
        simp only [UnderwayAt]
        exact ⟨h.1.congr ((hconfined v).agreeOn (.inl hid) (.inl (Nat.le_refl _))), hat⟩
      · rw [Node.sizeAll] at hhi
        by_cases ha : a < first + c.size
        · exact absurd hopen (h.1.not_open hlo ha)
        · exact hcourse.met a (by omega) (by omega) hopen

end Ordered

/-! ## Taking leave -/

/-- What the evaluation of a node comes to, from what its body comes to: the entry of the node is
the last, and one that answered `running` is nothing to the nodes below. -/
theorem Course.of_body {n : Node} {id : Nat} {v w : Visit (σ × Log)} {status : Status}
    (hbody : bodyOf leaf now id n v = (status, w))
    (hrunning : status = .running →
      Underway ⟨w.memory, entry now n id v .running :: w.log⟩ (now + 1) n id)
    (hsound : Log.Adds Evaluation.Sound v.log w.log)
    (hown : (entry now n id v status).Sound w.log)
    (hmet : ∀ a, id < a → a < id + n.size → v.log.Open a →
      Log.Met a v.log (entry now n id v status :: w.log)) :
    Course now n id v (attest leaf now n id v) := by
  have hbelow := (bodyOf_confined leaf now n id v).within
  rw [hbody] at hbelow
  have hdone := blankOn_attest leaf now n id v
  have hconfined := attest_confined leaf now n id v
  have hsince := fun a (ha : a < id) => since_attest leaf now n id v ha
  rw [attest_eq] at hdone hconfined hsince ⊢
  simp only [entered, settled, hbody] at hdone hconfined hsince ⊢
  refine ⟨fun hstatus => ?_, hdone, hconfined, hsince, ?_, fun a hlo hhi hopen => ?_⟩
  · have hunderway := hrunning hstatus
    subst hstatus
    exact hunderway
  · show Log.Adds _ _ (_ :: (w.settle id n.size status).leaves.2)
    rw [Visit.leaves_settle]
    exact hsound.cons hown
  · show Log.Met _ _ (_ :: (w.settle id n.size status).leaves.2)
    rw [Visit.leaves_settle]
    by_cases ha : a = id
    · subst ha
      exact (Log.Met.own rfl).earlier hbelow (.inl (Nat.lt_succ_self _))
    · exact hmet a (by omega) hhi hopen

/-- The entry of the node comes after it was turned to the nodes below. -/
theorem Log.Met.entry {a : Nat} {h h' : Log} (hmet : Met a h h') (e : Evaluation) :
    Met a h (e :: h') :=
  hmet.later (P := fun _ _ => True) (.cons .refl trivial)

/-- A sequence or selector, entered or taken up. -/
theorem resumed_course {goOn : Status} (hgoOn : goOn.isDone = true) {cs : List Node}
    (hcs : ∀ c ∈ cs, Proceeds leaf now c) {id : Nat} {v : Visit (σ × Log)}
    (hstands : v.chronicle.BlankOn id (id + (Node.sizeAll cs + 1)) ∨
      ∃ i, v.memory.find? id = some (.cursor i) ∧ UnderwayAt v.chronicle now cs (id + 1) i) :
    CourseInOrder now cs (id + 1) id 0 v (resumed goOn id (attestAll leaf now cs (id + 1)) v) := by
  rcases hstands with hblank | ⟨i, hnote, hat⟩
  · have hcursor : v.cursorAt id = 0 := by
      rw [Visit.cursorAt, hblank.notes id (Nat.le_refl _) (by omega)]
    simp only [resumed, hcursor, List.drop_zero]
    exact ordered_blank_course hgoOn hcs (Nat.lt_succ_self id)
      (hblank.mono (Nat.le_succ id) (by omega))
  · have hcursor : v.cursorAt id = i := by rw [Visit.cursorAt, hnote]
    have hcourse := ordered_resumed_course hgoOn hcs 0 (Nat.lt_succ_self id) hat
    rw [Nat.zero_add] at hcourse
    simpa only [resumed, hcursor] using hcourse

/-- What stopped the siblings of a sequence or selector is in progress below the node. -/
theorem CourseInOrder.underwayAt {cs : List Node} {id : Nat} {v w : Visit (σ × Log)}
    {e : Evaluation} (h : CourseInOrder now cs (id + 1) id 0 v (.running, w))
    (he : e.status = .running) (hid : e.id = id) : ∃ i, w.memory.find? id = some (.cursor i) ∧
      UnderwayAt ⟨w.memory, e :: w.log⟩ (now + 1) cs (id + 1) i := by
  obtain ⟨i, hnote, hat⟩ := h.running rfl
  rw [Nat.zero_add] at hnote
  exact ⟨i, hnote, hat.congr (Chronicle.agreeOn_cons he (.inl (by omega)))⟩

/-- A node that runs its children in order, whichever answer lets it go on. -/
theorem inOrder_proceeds {n : Node} {cs : List Node} {goOn : Status} (hgoOn : goOn.isDone = true)
    (hsize : n.size = Node.sizeAll cs + 1)
    (hunderway : ∀ {r : Chronicle} {clock id : Nat}, Underway r clock n id ↔
      ∃ i, r.memory.find? id = some (.cursor i) ∧ UnderwayAt r clock cs (id + 1) i)
    (hbody : ∀ id, bodyOf leaf now id n = resumed goOn id (attestAll leaf now cs (id + 1)))
    (hsound : ∀ (e : Evaluation) (pre : Log), e.node = n → e.Sound pre)
    (hcs : ∀ c ∈ cs, Proceeds leaf now c) : Proceeds leaf now n := by
  intro id v hstands
  rw [Stands, hunderway, hsize] at hstands
  have hcourse := resumed_course hgoOn hcs hstands
  rw [← hbody] at hcourse
  rcases hr : bodyOf leaf now id n v with ⟨status, w⟩
  rw [hr] at hcourse
  refine .of_body hr (fun hstatus => ?_) hcourse.sound (hsound _ _ rfl) fun a hlo hhi hopen =>
    (hcourse.met a hlo (by omega) hopen).entry _
  subst hstatus
  exact hunderway.mpr (hcourse.underwayAt rfl rfl)

/-! ## Parallel -/

/-- Siblings with an open slot stand to be evaluated, and those with a filled one are blank. -/
def StandsOpen (r : Chronicle) (clock : Nat) : List Node → Nat → List (Option Status) → Prop
  | c :: cs, id, none :: slots => Stands r clock c id ∧ StandsOpen r clock cs (id + c.size) slots
  | c :: cs, id, some _ :: slots =>
    r.BlankOn id (id + c.size) ∧ StandsOpen r clock cs (id + c.size) slots
  | [], _, [] => True
  | _, _, _ => False

/-- Siblings that are in progress stand to be evaluated. -/
theorem UnderwayOpen.standsOpen {r : Chronicle} {clock : Nat} {cs : List Node} :
    ∀ {id : Nat} {slots : List (Option Status)}, UnderwayOpen r clock cs id slots →
      StandsOpen r clock cs id slots := by
  induction cs with
  | nil =>
    intro id slots h
    cases slots with
    | nil => trivial
    | cons slot slots => simp only [UnderwayOpen] at h
  | cons c cs ih =>
    intro id slots h
    rcases slots with _ | ⟨_ | status, slots⟩ <;> simp only [UnderwayOpen] at h
    · exact ⟨.inr h.1, ih h.2⟩
    · exact ⟨h.1, ih h.2⟩

/-- Siblings that are blank stand to be evaluated, with nothing in their slots. -/
theorem Chronicle.BlankOn.standsOpen {r : Chronicle} {clock : Nat} {cs : List Node} : ∀ {id : Nat},
    r.BlankOn id (id + Node.sizeAll cs) →
      StandsOpen r clock cs id (List.replicate cs.length none) := by
  induction cs with
  | nil => exact fun _ => trivial
  | cons c cs ih =>
    intro id h
    rw [Node.sizeAll] at h
    exact ⟨.inl (h.mono (Nat.le_refl _) (by omega)), ih (h.mono (by omega) (by omega))⟩

theorem StandsOpen.congr {r s : Chronicle} {clock : Nat} {cs : List Node} :
    ∀ {id : Nat} {slots : List (Option Status)}, StandsOpen r clock cs id slots →
      Chronicle.AgreeOn r s id (id + Node.sizeAll cs) → StandsOpen s clock cs id slots := by
  induction cs with
  | nil =>
    intro id slots h _
    cases slots with
    | nil => trivial
    | cons slot slots => simp only [StandsOpen] at h
  | cons c cs ih =>
    intro id slots h hr
    rw [Node.sizeAll] at hr
    have hc : Chronicle.AgreeOn r s id (id + c.size) := hr.mono (Nat.le_refl _) (by omega)
    have hrest : Chronicle.AgreeOn r s (id + c.size) (id + c.size + Node.sizeAll cs) :=
      hr.mono (by omega) (by omega)
    rcases slots with _ | ⟨_ | status, slots⟩ <;> simp only [StandsOpen] at h
    · exact ⟨h.1.congr hc, ih h.2 hrest⟩
    · exact ⟨h.1.congr hc, ih h.2 hrest⟩

/-- The children of the parallel node at `id` that are not done were evaluated, each from where it
stood: those that are done now fill their slots. -/
structure CourseOpen (now : Nat) (cs : List Node) (first id : Nat) (v : Visit (σ × Log))
    (r : List (Option Status) × Visit (σ × Log)) : Prop where
  underway : UnderwayOpen r.2.chronicle (now + 1) cs first r.1
  told : r.2.log.SlotsTold id cs first r.1
  sound : Log.Adds Evaluation.Sound v.log r.2.log
  met : ∀ a, first ≤ a → a < first + Node.sizeAll cs → v.log.Open a → Log.Met a v.log r.2.log

/-- To fill slots is confined to the children. -/
theorem fillSlots_confined (cs : List Node) (id first : Nat) (slots : List (Option Status))
    (v : Visit (σ × Log)) :
    ConfinedAll id cs first v (fillSlots slots (attestAll leaf now cs first) v).2 :=
  (passage_confinedAll id cs first).fillSlots (attestAll_moves leaf now cs id first) slots v

theorem Status.eq_running_of_not_isDone {status : Status} (h : ¬ status.isDone = true) :
    status = .running := by
  cases status with
  | running => rfl
  | success => exact absurd rfl h
  | failure => exact absurd rfl h

section Siblings

variable {c : Node} {cs : List Node} {first id : Nat} {v w : Visit (σ × Log)} {status : Status}
  {r : List (Option Status) × Visit (σ × Log)}

/-- A child that was evaluated fills its slot if it is done, and is left so by its siblings. -/
theorem CourseOpen.cons_open (hchild : Course now c first v (status, w))
    (hcourse : CourseOpen now cs (first + c.size) id w r)
    (hrest : ConfinedAll id cs (first + c.size) w r.2) (hid : id < first)
    (htold : (v.log.since id first).AllRunning) :
    CourseOpen now (c :: cs) first id v
      ((if status.isDone then some status else none) :: r.1, r.2) := by
  have hpos := c.size_pos
  have hagree : Chronicle.AgreeOn w.chronicle r.2.chronicle first (first + c.size) :=
    hrest.agreeOn (.inl hid) (.inl (Nat.le_refl _))
  have hsince : r.2.log.since id first = entry now c first v status :: v.log.since id first :=
    (hrest.within.since_eq (.inl (by omega)) (.inl (by omega))).trans (hchild.since id hid)
  refine ⟨?_, ?_, hchild.sound.trans hcourse.sound, fun a hlo hhi hopen => ?_⟩
  · by_cases hstatus : status.isDone = true
    · rw [if_pos hstatus]
      simp only [UnderwayOpen]
      exact ⟨(hchild.done hstatus).congr hagree, hcourse.underway⟩
    · rw [if_neg hstatus]
      simp only [UnderwayOpen]
      exact ⟨(hchild.running (Status.eq_running_of_not_isDone hstatus)).congr hagree,
        hcourse.underway⟩
  · by_cases hstatus : status.isDone = true
    · rw [if_pos hstatus]
      simp only [Log.SlotsTold, Log.SlotTold]
      exact ⟨⟨_, _, hsince, rfl, hstatus, htold⟩, hcourse.told⟩
    · rw [if_neg hstatus]
      simp only [Log.SlotsTold, Log.SlotTold]
      rw [hsince]
      exact ⟨.cons (Status.eq_running_of_not_isDone hstatus) htold, hcourse.told⟩
  · rw [Node.sizeAll] at hhi
    by_cases ha : a < first + c.size
    · exact (hchild.met a hlo ha hopen).later hcourse.sound
    · have hwithin := hchild.confined.within
      have hopen' : w.log.Open a := by
        rw [Log.Open, hwithin.since_eq (.inr (by omega)) (.inr (by omega))]
        exact hopen
      exact (hcourse.met a (by omega) (by omega) hopen').earlier hwithin (.inr (by omega))

/-- A child that is done keeps its slot, and is left so by its siblings. -/
theorem CourseOpen.cons_filled (hblank : v.chronicle.BlankOn first (first + c.size))
    (hcourse : CourseOpen now cs (first + c.size) id v r)
    (hrest : ConfinedAll id cs (first + c.size) v r.2) (hid : id < first)
    (htold : Log.SlotTold (some status) (v.log.since id first)) :
    CourseOpen now (c :: cs) first id v (some status :: r.1, r.2) := by
  have hpos := c.size_pos
  have hsince : r.2.log.since id first = v.log.since id first :=
    hrest.within.since_eq (.inl (by omega)) (.inl (by omega))
  refine ⟨?_, ?_, hcourse.sound, fun a hlo hhi hopen => ?_⟩
  · simp only [UnderwayOpen]
    exact ⟨hblank.congr (hrest.agreeOn (.inl hid) (.inl (Nat.le_refl _))), hcourse.underway⟩
  · simp only [Log.SlotsTold]
    rw [hsince]
    exact ⟨htold, hcourse.told⟩
  · rw [Node.sizeAll] at hhi
    by_cases ha : a < first + c.size
    · exact absurd hopen (hblank.not_open hlo ha)
    · exact hcourse.met a (by omega) (by omega) hopen

end Siblings

/-- Filling slots takes its course if the children take theirs. -/
theorem fillSlots_course {cs : List Node} (hcs : ∀ c ∈ cs, Proceeds leaf now c) {id : Nat} :
    ∀ {first : Nat} {slots : List (Option Status)} {v : Visit (σ × Log)}, id < first →
      StandsOpen v.chronicle now cs first slots → v.log.SlotsTold id cs first slots →
      CourseOpen now cs first id v (fillSlots slots (attestAll leaf now cs first) v) := by
  induction cs with
  | nil =>
    intro first slots v _ hstands htold
    cases slots with
    | nil =>
      refine ⟨by simp only [fillSlots, UnderwayOpen], htold, .refl, fun a hlo hhi _ => ?_⟩
      rw [Node.sizeAll] at hhi
      omega
    | cons slot slots => simp only [StandsOpen] at hstands
  | cons c cs ih =>
    intro first slots v hid hstands htold
    have htail : ∀ d ∈ cs, Proceeds leaf now d := fun d hd => hcs d (List.mem_cons_of_mem _ hd)
    have hpos := c.size_pos
    rcases slots with _ | ⟨_ | status, slots⟩ <;> simp only [StandsOpen] at hstands
    · simp only [Log.SlotsTold, Log.SlotTold] at htold
      have hchild := hcs c List.mem_cons_self first v hstands.1
      have hstands' := hstands.2.congr (hchild.confined.agreeOn (.inr (Nat.le_refl _)))
      have htold' : (attest leaf now c first v).2.log.SlotsTold id cs (first + c.size) slots :=
        htold.2.congr fun b _ _ => hchild.confined.within.since_eq (.inl hid) (.inr (by omega))
      simp only [attestAll, fillSlots]
      exact .cons_open hchild (ih htail (by omega) hstands' htold')
        (fillSlots_confined cs id (first + c.size) slots _) hid htold.1
    · simp only [Log.SlotsTold] at htold
      simp only [attestAll, fillSlots]
      exact .cons_filled hstands.1 (ih htail (by omega) hstands.2 htold.2)
        (fillSlots_confined cs id (first + c.size) slots v) hid htold.1

/-- The slots that a parallel node starts from are told by the log, and its children stand
accordingly. -/
theorem Stands.slotsAt {threshold : Nat} {cs : List Node} {id : Nat} {v : Visit (σ × Log)}
    (h : Stands v.chronicle now (.parallel threshold cs) id) :
    StandsOpen v.chronicle now cs (id + 1) (v.slotsAt id cs.length) ∧
      v.log.SlotsTold id cs (id + 1) (v.slotsAt id cs.length) := by
  have hsize : (Node.parallel threshold cs).size = Node.sizeAll cs + 1 := rfl
  rcases h with hblank | hunderway
  · rw [Visit.slotsAt, hblank.notes id (Nat.le_refl _) (by omega)]
    exact ⟨(hblank.mono (by omega) (by omega)).standsOpen, Log.slotsTold_replicate fun b _ _ =>
      hblank.log id b (Nat.le_refl _) (by omega) (by omega) (by omega)⟩
  · simp only [Underway] at hunderway
    obtain ⟨slots, hnote, -, htold, hopen⟩ := hunderway
    rw [Visit.slotsAt, hnote]
    simp only [htold.length_eq, if_true]
    exact ⟨hopen.standsOpen, htold⟩

/-- A parallel node takes its course if its children take theirs. -/
theorem parallel_proceeds {threshold : Nat} {cs : List Node}
    (hcs : ∀ c ∈ cs, Proceeds leaf now c) : Proceeds leaf now (.parallel threshold cs) := by
  intro id v hstands
  have hsize : (Node.parallel threshold cs).size = Node.sizeAll cs + 1 := rfl
  obtain ⟨hstands', htold⟩ := hstands.slotsAt
  have hcourse := fillSlots_course hcs (v := v.forget id) (Nat.lt_succ_self id)
    (hstands'.congr (v.agreeOn_forget (.inl (Nat.lt_succ_self id)))) htold
  rcases hfill : fillSlots (v.slotsAt id cs.length) (attestAll leaf now cs (id + 1)) (v.forget id)
    with ⟨slots, w⟩
  rw [hfill] at hcourse
  have hmet : ∀ a, id < a → a < id + (Node.parallel threshold cs).size → v.log.Open a →
      Log.Met a v.log w.log :=
    fun a hlo hhi hopen => hcourse.met a hlo (by omega) hopen
  by_cases hstatus : parallelStatus threshold slots = .running
  · refine .of_body (bodyOf_parallel_running hfill hstatus) (fun _ => ?_) hcourse.sound
      ⟨slots, hcourse.told, hstatus.symm⟩ fun a hlo hhi hopen => (hmet a hlo hhi hopen).entry _
    simp only [Underway]
    refine ⟨slots, Visit.find?_remember_self .., hstatus, hcourse.told.congr fun b _ _ => ?_, ?_⟩
    · exact Log.since_cons_of_ne (Evaluation.ends_of_running rfl) (by show id ≠ b; omega)
    · exact hcourse.underway.congr ((w.agreeOn_remember _ (.inl (Nat.lt_succ_self id))).trans
        (Chronicle.agreeOn_cons rfl (.inl (Nat.lt_succ_self id))))
  · exact .of_body (bodyOf_parallel_done hfill hstatus) (fun hrunning => absurd hrunning hstatus)
      hcourse.sound ⟨slots, hcourse.told, rfl⟩ fun a hlo hhi hopen => (hmet a hlo hhi hopen).entry _

/-! ## Decorators -/

section Decorated

variable {c : Node} (hc : Proceeds leaf now c) {id : Nat} {v : Visit (σ × Log)}

/-- Where a decorator is blank it has no note, and its child is blank. -/
theorem Chronicle.BlankOn.below {r : Chronicle} {d : Decorator} {id : Nat}
    (h : r.BlankOn id (id + (Node.decorated d c).size)) :
    r.memory.find? id = none ∧ r.BlankOn (id + 1) (id + 1 + c.size) := by
  have hsize : (Node.decorated d c).size = c.size + 1 := rfl
  exact ⟨h.notes id (Nat.le_refl _) (by omega), h.mono (by omega) (by omega)⟩

/-- The child answered `running`, and so does its decorator, of which that is all. -/
theorem Course.underway_below {w : Visit (σ × Log)} {e : Evaluation}
    (h : Course now c (id + 1) v (.running, w)) (he : e.status = .running) (hid : e.id = id) :
    Underway ⟨w.memory, e :: w.log⟩ (now + 1) c (id + 1) :=
  (h.running rfl).congr (Chronicle.agreeOn_cons he (.inl (by omega)))

/-- Below a decorator lies its child. -/
theorem Course.met_below {w : Visit (σ × Log)} {status : Status} {d : Decorator}
    (h : Course now c (id + 1) v (status, w)) (e : Evaluation) (a : Nat) (hlo : id < a)
    (hhi : a < id + (Node.decorated d c).size) (hopen : v.log.Open a) :
    Log.Met a v.log (e :: w.log) := by
  have hsize : (Node.decorated d c).size = c.size + 1 := rfl
  exact (h.met a hlo (by omega) hopen).entry e

/-- How a timeout stands when it is evaluated: where it is blank, it is entered in this tick. -/
theorem Stands.timeout {ticks : Nat} (hnow : 1 ≤ now)
    (hstands : Stands v.chronicle now (.decorated (.timeout ticks) c) id) :
    ∃ started, v.startedAt id now = started ∧ 1 ≤ started ∧ started ≤ now ∧ now ≤ started + ticks ∧
      v.memory.find? id = (if started = now then none else some (.startedAt started)) ∧
      v.log.Granted id started now ∧ Stands v.chronicle now c (id + 1) ∧
      (started = now → v.chronicle.BlankOn (id + 1) (id + 1 + c.size)) := by
  have hsize : (Node.decorated (.timeout ticks) c).size = c.size + 1 := rfl
  rcases hstands with hblank | hunderway
  · obtain ⟨hnone, hchild⟩ := hblank.below
    have hsince : ∀ b, id ≤ b → b < id + (c.size + 1) → v.log.since id b = [] := fun b hlo hhi =>
      hblank.log id b (Nat.le_refl _) (by omega) hlo hhi
    have hpos := c.size_pos
    refine ⟨now, by rw [Visit.startedAt, hnone], hnow, Nat.le_refl _, by omega, ?_,
      Log.Granted.entered (hsince id (Nat.le_refl _) (by omega))
        (hsince (id + 1) (by omega) (by omega)), .inl hchild, fun _ => hchild⟩
    rw [if_pos rfl, hnone]
  · simp only [Underway] at hunderway
    obtain ⟨started, hnote, ⟨hpos, hlt, hle⟩, hgranted, hchild⟩ := hunderway
    refine ⟨started, by rw [Visit.startedAt, hnote], hpos, by omega, hle, ?_, hgranted, .inr hchild,
      fun h => by omega⟩
    rw [if_neg (by omega), hnote]

/-- A timeout without a tick left fails, and what is in progress below it ends. -/
theorem timeout_course_expired {ticks started : Nat} (hspent : ticks ≤ now - started)
    (hstarted : v.startedAt id now = started)
    (hown : (entry now (.decorated (.timeout ticks) c) id v .failure).Timed ticks v.log started)
    (hfresh : started = now → v.chronicle.BlankOn (id + 1) (id + 1 + c.size)) :
    Course now (.decorated (.timeout ticks) c) id v
      (attest leaf now (.decorated (.timeout ticks) c) id v) := by
  have hsize : (Node.decorated (.timeout ticks) c).size = c.size + 1 := rfl
  refine .of_body (bodyOf_timeout_spent (hstarted ▸ hspent))
    (fun hrunning => absurd hrunning (by decide)) .refl ⟨started, hown⟩ fun a hlo hhi hopen => ?_
  by_cases hnew : started = now
  · exact absurd hopen ((hfresh hnew).not_open hlo (by omega))
  · have hnote : v.memory.find? id = some (.startedAt started) := hown.note.trans (if_neg hnew)
    refine .expired ⟨ticks, c, started, rfl, hnote, hspent⟩ ?_
    exact Evaluation.ends_iff.mpr ⟨rfl, Nat.le_of_lt hlo, hhi⟩

include hc

theorem inverter_proceeds : Proceeds leaf now (.decorated .inverter c) := by
  intro id v hstands
  have hbelow : v.memory.find? id = none ∧ Stands v.chronicle now c (id + 1) := by
    rcases hstands with hblank | hunderway
    · exact hblank.below.imp_right .inl
    · simp only [Underway] at hunderway
      exact hunderway.imp_right .inr
  have hchild := hc (id + 1) v hbelow.2
  rcases hr : attest leaf now c (id + 1) v with ⟨status, w⟩
  rw [hr] at hchild
  refine .of_body (bodyOf_inverter hr) (fun hstatus => ?_) hchild.sound trivial
    (hchild.met_below _)
  cases status with
  | running =>
    simp only [Underway]
    exact ⟨(hchild.confined.notes id (.inl (Nat.lt_succ_self id))).trans hbelow.1,
      hchild.underway_below rfl rfl⟩
  | success => cases hstatus
  | failure => cases hstatus

theorem untilFail_proceeds : Proceeds leaf now (.decorated .untilFail c) := by
  intro id v hstands
  have hbelow : v.memory.find? id = none ∧ Stands v.chronicle now c (id + 1) := by
    rcases hstands with hblank | hunderway
    · exact hblank.below.imp_right .inl
    · simp only [Underway] at hunderway
      exact hunderway.imp_right And.right
  have hchild := hc (id + 1) v hbelow.2
  rcases hr : attest leaf now c (id + 1) v with ⟨status, w⟩
  rw [hr] at hchild
  have hself : w.memory.find? id = none :=
    (hchild.confined.notes id (.inl (Nat.lt_succ_self id))).trans hbelow.1
  refine .of_body (bodyOf_untilFail hr) (fun hstatus => ?_) hchild.sound trivial
    (hchild.met_below _)
  simp only [Underway]
  refine ⟨hself, Log.open_cons rfl rfl, ?_⟩
  cases status with
  | running => exact .inr (hchild.underway_below rfl rfl)
  | success =>
    -- in progress over a blank child
    exact .inl ((hchild.done rfl).congr (Chronicle.agreeOn_cons rfl (.inl (Nat.lt_succ_self id))))
  | failure => cases hstatus

/-- The child may run several times; from the second on it starts blank. -/
theorem repeatChild_course {count : Nat} :
    ∀ {remaining done : Nat} {v : Visit (σ × Log)}, done + remaining = count →
      Stands v.chronicle now c (id + 1) →
      ∃ status w, repeatChild id (attest leaf now c (id + 1)) remaining done v = (status, w) ∧
        (status = .running → ∃ k, w.memory.find? id = some (.iterations k) ∧ k < count ∧
          Underway w.chronicle (now + 1) c (id + 1)) ∧
        Log.Adds Evaluation.Sound v.log w.log ∧
        (0 < remaining → ∀ a, id + 1 ≤ a → a < id + 1 + c.size → v.log.Open a →
          Log.Met a v.log w.log) := by
  intro remaining
  induction remaining with
  | zero =>
    intro done v _ _
    exact ⟨.success, v, rfl, fun hrunning => absurd hrunning (by decide), .refl,
      fun h => absurd h (Nat.lt_irrefl 0)⟩
  | succ remaining ih =>
    intro done v hcount hstands
    have hchild := hc (id + 1) v hstands
    rcases hr : attest leaf now c (id + 1) v with ⟨status, w⟩
    rw [hr] at hchild
    cases status with
    | success =>
      have hcount' : done + 1 + remaining = count := by omega
      obtain ⟨status, w', hrest, hrunning, hsound, -⟩ := ih hcount' (.inl (hchild.done rfl))
      exact ⟨status, w', by simp only [repeatChild, hr, hrest], hrunning,
        hchild.sound.trans hsound,
        fun _ a hlo hhi hopen => (hchild.met a hlo hhi hopen).later hsound⟩
    | failure =>
      exact ⟨.failure, w, by simp only [repeatChild, hr],
        fun hrunning => absurd hrunning (by decide), hchild.sound, fun _ => hchild.met⟩
    | running =>
      refine ⟨.running, w.remember id (.iterations done), by simp only [repeatChild, hr],
        fun _ => ⟨done, Visit.find?_remember_self .., by omega, ?_⟩, hchild.sound,
        fun _ => hchild.met⟩
      exact (hchild.running rfl).congr (w.agreeOn_remember _ (.inl (Nat.lt_succ_self id)))

theorem repeated_proceeds (count : Nat) : Proceeds leaf now (.decorated (.repeated count) c) := by
  intro id v hstands
  have hsize : (Node.decorated (.repeated count) c).size = c.size + 1 := rfl
  -- a repetition in progress has runs left, and under one that is blank nothing is open
  have hbelow : v.iterationsAt id + (count - v.iterationsAt id) = count ∧
      Stands v.chronicle now c (id + 1) ∧
      ∀ a, id + 1 ≤ a → a < id + 1 + c.size → v.log.Open a → 0 < count - v.iterationsAt id := by
    rcases hstands with hblank | hunderway
    · obtain ⟨hnone, hblank⟩ := hblank.below
      have hdone : v.iterationsAt id = 0 := by rw [Visit.iterationsAt, hnone]
      rw [hdone]
      exact ⟨by omega, .inl hblank, fun a hlo hhi hopen => absurd hopen (hblank.not_open hlo hhi)⟩
    · simp only [Underway] at hunderway
      obtain ⟨k, hnote, hk, hunderway⟩ := hunderway
      have hdone : v.iterationsAt id = k := by rw [Visit.iterationsAt, hnote]
      rw [hdone]
      exact ⟨by omega, .inr hunderway, fun _ _ _ _ => by omega⟩
  obtain ⟨hcount, hstands', hremaining⟩ := hbelow
  obtain ⟨status, w, hr, hrunning, hsound, hmet⟩ := repeatChild_course hc hcount hstands'
  have hbody : bodyOf leaf now id (.decorated (.repeated count) c) v = (status, w) := by
    simp only [bodyOf, decorate, hr]
  refine .of_body hbody (fun hstatus => ?_) hsound trivial fun a hlo hhi hopen =>
    (hmet (hremaining a hlo (by omega) hopen) a hlo (by omega) hopen).entry _
  obtain ⟨k, hnote, hk, hunderway⟩ := hrunning hstatus
  simp only [Underway]
  exact ⟨k, hnote, hk,
    hunderway.congr (Chronicle.agreeOn_cons rfl (.inl (Nat.lt_succ_self id)))⟩

theorem timeout_proceeds (hnow : 1 ≤ now) (ticks : Nat) :
    Proceeds leaf now (.decorated (.timeout ticks) c) := by
  intro id v hstands
  obtain ⟨started, hstarted, hpos, hle, hbound, hnote, hgranted, hstands', hfresh⟩ :=
    hstands.timeout hnow
  by_cases hspent : ticks ≤ now - started
  · refine timeout_course_expired hspent hstarted ⟨hpos, hle, hnote, hgranted.own, .inr
      ⟨?_, rfl, hgranted.child, hgranted.running⟩⟩ hfresh
    show now = started + ticks
    omega
  · have hleft : now < started + ticks := by omega
    have hchild := hc (id + 1) v hstands'
    rcases hr : attest leaf now c (id + 1) v with ⟨status, w⟩
    rw [hr] at hchild
    have hsince := hchild.since id (Nat.lt_succ_self id)
    have hself : w.log.since id id = v.log.since id id :=
      hchild.confined.within.since_eq (.inl (Nat.lt_succ_self id)) (.inl (Nat.lt_succ_self id))
    have hown : (entry now (.decorated (.timeout ticks) c) id v status).Timed ticks w.log started :=
      ⟨hpos, hle, hnote, (congrArg Log.ticks hself).trans hgranted.own, .inl ⟨hleft, _, _, hsince,
        rfl, rfl, hgranted.child, hgranted.running⟩⟩
    rw [← hstarted] at hspent
    by_cases hstatus : status = .running
    · subst hstatus
      refine .of_body (bodyOf_timeout_running hspent hr) (fun _ => ?_) hchild.sound
        ⟨started, hown⟩ (hchild.met_below _)
      simp only [Underway]
      refine ⟨started, hstarted ▸ Visit.find?_remember_self .., ⟨hpos, by omega, by omega⟩,
        hgranted.cons hle hself hsince rfl rfl rfl rfl rfl, ?_⟩
      exact (hchild.running rfl).congr ((w.agreeOn_remember _ (.inl (Nat.lt_succ_self id))).trans
        (Chronicle.agreeOn_cons rfl (.inl (Nat.lt_succ_self id))))
    · exact .of_body (bodyOf_timeout_done hspent hr hstatus) (fun h => absurd h hstatus)
        hchild.sound ⟨started, hown⟩ (hchild.met_below _)

end Decorated

/-! ## Nodes -/

theorem leaf_proceeds (l : Leaf) : Proceeds leaf now (.leaf l) := by
  intro id v hstands
  have hnone : v.memory.find? id = none := by
    rcases hstands with hblank | hunderway
    · exact hblank.notes id (Nat.le_refl _) (Nat.lt_succ_self id)
    · simp only [Underway] at hunderway
      exact hunderway.1
  rcases hleaf : leaf.beside id l v.leaves with ⟨status, x, log⟩
  have hlog : log = v.log := by
    simp only [LeafEvaluator.beside, Prod.mk.injEq] at hleaf
    exact hleaf.2.2.symm
  have hbody : bodyOf leaf now id (.leaf l) v = (status, { v with leaves := (x, log) }) := by
    simp only [bodyOf, hleaf]
  have hsize : (Node.leaf l).size = 1 := rfl
  subst hlog
  refine .of_body hbody (fun _ => ?_) .refl trivial fun a hlo hhi _ => by omega
  simp only [Underway]
  exact ⟨hnone, Log.open_cons rfl rfl⟩

/-- **An evaluation takes its course**: for every node, wherever it lies and however it stands, it
is left blank or in progress, each evaluation that is entered is sound, and each node in progress is
turned to. -/
theorem attest_course (leaf : LeafEvaluator σ) (hnow : 1 ≤ now) (n : Node) :
    Proceeds leaf now n := by
  induction n with
  | leaf l => exact leaf_proceeds l
  | sequence cs ih =>
    refine inOrder_proceeds (show Status.success.isDone = true from rfl) rfl
      (by simp only [Underway, implies_true]) (fun _ => rfl) (fun e pre he => ?_) ih
    simp only [Evaluation.Sound, he]
  | selector cs ih =>
    refine inOrder_proceeds (show Status.failure.isDone = true from rfl) rfl
      (by simp only [Underway, implies_true]) (fun _ => rfl) (fun e pre he => ?_) ih
    simp only [Evaluation.Sound, he]
  | decorated d c ih =>
    cases d with
    | inverter => exact inverter_proceeds ih
    | repeated count => exact repeated_proceeds ih count
    | untilFail => exact untilFail_proceeds ih
    | timeout ticks => exact timeout_proceeds ih hnow ticks
  | parallel threshold cs ih => exact parallel_proceeds ih

end Herd
