import Herd.Proofs.Run.Attest

/-!
# Nodes under way

A `Chronicle` is what a run goes by, its notes, with what it went through, its log. `Underway` says
of both in the region of a node what each kind of node leaves there while it is in progress:

* a leaf leaves no note, only its evaluation;
* a sequence or selector is at one child, and the others have neither notes nor evaluations since
  they last ended;
* a parallel node has noted for each child the status that the child finished with in this
  activation, if it did, and those that did not are in progress (`Log.SlotsTold`);
* a timeout was entered at the tick that it noted, and both it and its child were evaluated in each
  tick since (`Log.Granted`), which are not more than its ticks.

The relation looks at nothing outside the region (`Underway.congr`).
-/

namespace Herd

universe u

/-! ## Regions of a chronicle -/

/-- The notes of a run, and its log. -/
structure Chronicle where
  memory : Memory
  log : Log

namespace Chronicle

variable {r s t : Chronicle} {lo hi lo' hi' : Nat}

/-- No node from `lo` up to `hi` has a note or is in progress. -/
structure BlankOn (r : Chronicle) (lo hi : Nat) : Prop where
  notes : r.memory.BlankOn lo hi
  log : ∀ a b : Nat, lo ≤ a → a < hi → lo ≤ b → b < hi → r.log.since a b = []

/-- The notes from `lo` up to `hi` are the same, and so are the evaluations of nodes there in each
activation of a node there. -/
structure AgreeOn (r s : Chronicle) (lo hi : Nat) : Prop where
  notes : Memory.AgreeOn r.memory s.memory lo hi
  log : ∀ a b : Nat, lo ≤ a → a < hi → lo ≤ b → b < hi → s.log.since a b = r.log.since a b

theorem BlankOn.mono (h : r.BlankOn lo hi) (hlo : lo ≤ lo') (hhi : hi' ≤ hi) :
    r.BlankOn lo' hi' :=
  ⟨h.notes.mono hlo hhi, fun a b _ _ _ _ => h.log a b (by omega) (by omega) (by omega) (by omega)⟩

theorem BlankOn.congr (h : r.BlankOn lo hi) (hr : AgreeOn r s lo hi) : s.BlankOn lo hi :=
  ⟨h.notes.congr hr.notes,
    fun a b ha ha' hb hb' => (hr.log a b ha ha' hb hb').trans (h.log a b ha ha' hb hb')⟩

/-- Nothing is in progress in a blank region. -/
theorem BlankOn.not_open (h : r.BlankOn lo hi) {a : Nat} (hlo : lo ≤ a) (hhi : a < hi) :
    ¬ r.log.Open a :=
  fun hopen => hopen (h.log a a hlo hhi hlo hhi)

theorem AgreeOn.trans (h₁ : AgreeOn r s lo hi) (h₂ : AgreeOn s t lo hi) : AgreeOn r t lo hi :=
  ⟨fun k hk hk' => (h₂.notes k hk hk').trans (h₁.notes k hk hk'),
    fun a b ha ha' hb hb' => (h₂.log a b ha ha' hb hb').trans (h₁.log a b ha ha' hb hb')⟩

theorem AgreeOn.mono (h : AgreeOn r s lo hi) (hlo : lo ≤ lo') (hhi : hi' ≤ hi) :
    AgreeOn r s lo' hi' :=
  ⟨h.notes.mono hlo hhi,
    fun a b _ _ _ _ => h.log a b (by omega) (by omega) (by omega) (by omega)⟩

end Chronicle

/-- The notes of a visit with its log. -/
abbrev Visit.chronicle {σ : Type u} (v : Visit (σ × Log)) : Chronicle := ⟨v.memory, v.log⟩

section Agreement

variable {σ : Type u} {n : Node} {cs : List Node} {id first lo hi : Nat} {v w : Visit (σ × Log)}

/-- What an evaluation is confined to does not meet the region. -/
theorem Confined.agreeOn (h : Confined n id v w) (hd : hi ≤ id ∨ id + n.size ≤ lo) :
    Chronicle.AgreeOn v.chronicle w.chronicle lo hi :=
  ⟨h.notes.agreeOn hd, fun _ _ _ _ _ _ =>
    h.within.since_eq (by omega) (by omega)⟩

/-- What is confined to siblings leaves every region alone that does not meet theirs. -/
theorem ConfinedAll.agreeOn (h : ConfinedAll id cs first v w) (hid : id < lo ∨ hi ≤ id)
    (hd : hi ≤ first ∨ first + Node.sizeAll cs ≤ lo) :
    Chronicle.AgreeOn v.chronicle w.chronicle lo hi :=
  ⟨fun k _ _ => h.notes k (by omega) (by omega), fun _ _ _ _ _ _ =>
    h.within.since_eq (by omega) (by omega)⟩

/-- A note concerns no region that it does not lie in. -/
theorem Visit.agreeOn_remember (v : Visit (σ × Log)) (note : NodeMemory)
    (hid : id < lo ∨ hi ≤ id) :
    Chronicle.AgreeOn v.chronicle (v.remember id note).chronicle lo hi :=
  ⟨(v.agreeOff_remember id note).agreeOn (by omega), fun _ _ _ _ _ _ => rfl⟩

theorem Visit.agreeOn_forget (v : Visit (σ × Log)) (hid : id < lo ∨ hi ≤ id) :
    Chronicle.AgreeOn v.chronicle (v.forget id).chronicle lo hi :=
  ⟨(v.agreeOff_forget id).agreeOn (by omega), fun _ _ _ _ _ _ => rfl⟩

end Agreement

/-- An evaluation that answered `running` is nothing to the nodes below. -/
theorem Chronicle.agreeOn_cons {m : Memory} {e : Evaluation} {h : Log} {lo hi : Nat}
    (he : e.status = .running) (hid : e.id < lo ∨ hi ≤ e.id) :
    AgreeOn ⟨m, h⟩ ⟨m, e :: h⟩ lo hi :=
  ⟨fun _ _ _ => rfl, fun _ _ _ _ _ _ =>
    Log.since_cons_of_ne (Evaluation.ends_of_running he) (by omega)⟩

/-! ## What a log tells of a node in progress -/

namespace Log

/-- The slot of a child is what its evaluations come to: all answered `running`, or all but the
latest, which is done. -/
def SlotTold : Option Status → Log → Prop
  | none, h => h.AllRunning
  | some status, h => ∃ (e : Evaluation) (rest : Log), h = e :: rest ∧ e.status = status ∧
    status.isDone = true ∧ rest.AllRunning

/-- The slots of siblings of which the first is at `first` are what the evaluations of each in the
activation of the node at `a` come to. -/
def SlotsTold (h : Log) (a : Nat) : List Node → (first : Nat) → List (Option Status) → Prop
  | [], _, [] => True
  | c :: cs, first, slot :: slots =>
    SlotTold slot (h.since a first) ∧ SlotsTold h a cs (first + c.size) slots
  | _, _, _ => False

/-- The timeout at `id` and its child were evaluated in each tick from `started` up to `clock`, and
the child always answered `running`. -/
structure Granted (h : Log) (id started clock : Nat) : Prop where
  own : (h.since id id).ticks = List.range' started (clock - started)
  child : (h.since id (id + 1)).ticks = List.range' started (clock - started)
  running : (h.since id (id + 1)).AllRunning

variable {h h' : Log}

/-- What is told of slots is told by the evaluations of the siblings. -/
theorem SlotsTold.congr {a : Nat} {cs : List Node} : ∀ {first : Nat} {slots : List (Option Status)},
    SlotsTold h a cs first slots →
    (∀ b, first ≤ b → b < first + Node.sizeAll cs → h'.since a b = h.since a b) →
    SlotsTold h' a cs first slots := by
  induction cs with
  | nil =>
    intro first slots htold _
    cases slots with
    | nil => exact htold
    | cons slot slots => exact htold
  | cons c cs ih =>
    intro first slots htold hh
    rw [Node.sizeAll] at hh
    have hpos := c.size_pos
    cases slots with
    | nil => exact htold
    | cons slot slots =>
      simp only [SlotsTold] at htold ⊢
      rw [hh first (Nat.le_refl _) (by omega)]
      exact ⟨htold.1, ih htold.2 fun b _ _ => hh b (by omega) (by omega)⟩

theorem SlotsTold.length_eq {a : Nat} {cs : List Node} :
    ∀ {first : Nat} {slots : List (Option Status)}, SlotsTold h a cs first slots →
      slots.length = cs.length := by
  induction cs with
  | nil =>
    intro first slots htold
    cases slots with
    | nil => rfl
    | cons slot slots => simp only [SlotsTold] at htold
  | cons c cs ih =>
    intro first slots htold
    cases slots with
    | nil => simp only [SlotsTold] at htold
    | cons slot slots =>
      simp only [SlotsTold] at htold
      rw [List.length_cons, List.length_cons, ih htold.2]

/-- Siblings that were not evaluated have open slots. -/
theorem slotsTold_replicate {a : Nat} {cs : List Node} : ∀ {first : Nat},
    (∀ b, first ≤ b → b < first + Node.sizeAll cs → h.since a b = []) →
    SlotsTold h a cs first (List.replicate cs.length none) := by
  induction cs with
  | nil => exact fun _ => trivial
  | cons c cs ih =>
    intro first hh
    rw [Node.sizeAll] at hh
    have hpos := c.size_pos
    simp only [List.length_cons, List.replicate_succ, SlotsTold, SlotTold]
    rw [hh first (Nat.le_refl _) (by omega)]
    exact ⟨allRunning_nil, ih fun b _ _ => hh b (by omega) (by omega)⟩

/-- What time was granted is told by the evaluations of the timeout and of its child. -/
theorem Granted.congr {id started clock : Nat} (hg : Granted h id started clock)
    (hown : h'.since id id = h.since id id)
    (hchild : h'.since id (id + 1) = h.since id (id + 1)) : Granted h' id started clock :=
  ⟨by rw [hown, hg.own], by rw [hchild, hg.child], by rw [hchild]; exact hg.running⟩

/-- A timeout that was not evaluated has spent nothing. -/
theorem Granted.entered {id now : Nat} (hown : h.since id id = [])
    (hchild : h.since id (id + 1) = []) : Granted h id now now := by
  have hnone : List.range' now (now - now) = [] := by rw [Nat.sub_self, List.range'_zero]
  refine ⟨?_, ?_, ?_⟩
  · rw [hown, ticks_nil, hnone]
  · rw [hchild, ticks_nil, hnone]
  · rw [hchild]
    exact allRunning_nil

theorem range'_to_succ {started now : Nat} (hle : started ≤ now) :
    List.range' started (now + 1 - started) = List.range' started (now - started) ++ [now] := by
  have hcount : now + 1 - started = now - started + 1 := by omega
  have hlast : started + (now - started) = now := by omega
  rw [hcount, List.range'_1_concat, hlast]

/-- One more tick in which the timeout and its child were evaluated and answered `running`. -/
theorem Granted.cons {id started now : Nat} {d e : Evaluation} (hg : Granted h id started now)
    (hle : started ≤ now) (hown : h'.since id id = h.since id id)
    (hchild : h'.since id (id + 1) = d :: h.since id (id + 1)) (hd : d.tick = now)
    (hrunning : d.status = .running) (he : e.tick = now) (hid : e.id = id)
    (hstatus : e.status = .running) : Granted (e :: h') id started (now + 1) := by
  have hends := Evaluation.ends_of_running (a := id) hstatus
  have hbelow : since id (id + 1) (e :: h') = d :: h.since id (id + 1) :=
    (since_cons_of_ne hends (by omega)).trans hchild
  refine ⟨?_, ?_, ?_⟩
  · rw [since_cons_self hends hid, ticks_cons, hown, hg.own, he, range'_to_succ hle]
  · rw [hbelow, ticks_cons, hg.child, hd, range'_to_succ hle]
  · rw [hbelow]
    exact .cons hrunning hg.running

end Log

/-! ## The relation -/

mutual

/-- The node at `id` is in progress between two ticks, of which the later is `clock`. -/
def Underway (r : Chronicle) (clock : Nat) : Node → Nat → Prop
  | .leaf _, id => r.memory.find? id = none ∧ r.log.Open id
  | .sequence cs, id =>
    ∃ i, r.memory.find? id = some (.cursor i) ∧ UnderwayAt r clock cs (id + 1) i
  | .selector cs, id =>
    ∃ i, r.memory.find? id = some (.cursor i) ∧ UnderwayAt r clock cs (id + 1) i
  | .parallel threshold cs, id =>
    ∃ slots, r.memory.find? id = some (.finished slots) ∧
      parallelStatus threshold slots = .running ∧ r.log.SlotsTold id cs (id + 1) slots ∧
      UnderwayOpen r clock cs (id + 1) slots
  | .decorated .inverter c, id => r.memory.find? id = none ∧ Underway r clock c (id + 1)
  | .decorated (.repeated count) c, id =>
    ∃ k, r.memory.find? id = some (.iterations k) ∧ k < count ∧ Underway r clock c (id + 1)
  | .decorated .untilFail c, id =>
    r.memory.find? id = none ∧ r.log.Open id ∧
      (r.BlankOn (id + 1) (id + 1 + c.size) ∨ Underway r clock c (id + 1))
  | .decorated (.timeout ticks) c, id =>
    ∃ started, r.memory.find? id = some (.startedAt started) ∧
      (1 ≤ started ∧ started < clock ∧ clock ≤ started + ticks) ∧
      r.log.Granted id started clock ∧ Underway r clock c (id + 1)

/-- Of siblings the one at index `i` is in progress, and the others are blank. -/
def UnderwayAt (r : Chronicle) (clock : Nat) : List Node → Nat → (i : Nat) → Prop
  | [], _, _ => False
  | c :: cs, id, 0 =>
    Underway r clock c id ∧ r.BlankOn (id + c.size) (id + c.size + Node.sizeAll cs)
  | c :: cs, id, i + 1 => r.BlankOn id (id + c.size) ∧ UnderwayAt r clock cs (id + c.size) i

/-- Siblings with an open slot are in progress, and those with a filled one are blank. -/
def UnderwayOpen (r : Chronicle) (clock : Nat) : List Node → Nat → List (Option Status) → Prop
  | c :: cs, id, none :: slots =>
    Underway r clock c id ∧ UnderwayOpen r clock cs (id + c.size) slots
  | c :: cs, id, some _ :: slots =>
    r.BlankOn id (id + c.size) ∧ UnderwayOpen r clock cs (id + c.size) slots
  | [], _, [] => True
  | _, _, _ => False

end

/-- A node that is to be evaluated in tick `clock` is blank or in progress. -/
def Stands (r : Chronicle) (clock : Nat) (n : Node) (id : Nat) : Prop :=
  r.BlankOn id (id + n.size) ∨ Underway r clock n id

/-! ### It looks at no other region -/

section Regions

variable {r s : Chronicle} {clock : Nat}

/-- Chronicles that agree on the region of a node agree on whether it is in progress. -/
def ReadsRegion (n : Node) : Prop :=
  ∀ {r s : Chronicle} {clock id : Nat}, Chronicle.AgreeOn r s id (id + n.size) →
    Underway r clock n id → Underway s clock n id

/-- That a sibling is in progress is read in their region, if it is so of each node. -/
theorem UnderwayAt.congr_of {cs : List Node} (hcs : ∀ c ∈ cs, ReadsRegion c) : ∀ {id i : Nat},
    Chronicle.AgreeOn r s id (id + Node.sizeAll cs) → UnderwayAt r clock cs id i →
      UnderwayAt s clock cs id i := by
  induction cs with
  | nil => exact fun _ h => h
  | cons c cs ih =>
    intro id i hr h
    rw [Node.sizeAll] at hr
    cases i with
    | zero =>
      simp only [UnderwayAt] at h ⊢
      exact ⟨hcs c List.mem_cons_self (hr.mono (Nat.le_refl _) (by omega)) h.1,
        h.2.congr (hr.mono (by omega) (by omega))⟩
    | succ i =>
      simp only [UnderwayAt] at h ⊢
      exact ⟨h.1.congr (hr.mono (Nat.le_refl _) (by omega)),
        ih (fun d hd => hcs d (List.mem_cons_of_mem _ hd)) (hr.mono (by omega) (by omega)) h.2⟩

theorem UnderwayOpen.congr_of {cs : List Node} (hcs : ∀ c ∈ cs, ReadsRegion c) :
    ∀ {id : Nat} {slots : List (Option Status)},
      Chronicle.AgreeOn r s id (id + Node.sizeAll cs) → UnderwayOpen r clock cs id slots →
      UnderwayOpen s clock cs id slots := by
  induction cs with
  | nil =>
    intro id slots _ h
    cases slots with
    | nil => simp only [UnderwayOpen]
    | cons slot slots => simp only [UnderwayOpen] at h
  | cons c cs ih =>
    intro id slots hr h
    rw [Node.sizeAll] at hr
    have hc : Chronicle.AgreeOn r s id (id + c.size) := hr.mono (Nat.le_refl _) (by omega)
    have hrest : Chronicle.AgreeOn r s (id + c.size) (id + c.size + Node.sizeAll cs) :=
      hr.mono (by omega) (by omega)
    have htail : ∀ d ∈ cs, ReadsRegion d := fun d hd => hcs d (List.mem_cons_of_mem _ hd)
    rcases slots with _ | ⟨_ | status, slots⟩ <;> simp only [UnderwayOpen] at h ⊢
    · exact ⟨hcs c List.mem_cons_self hc h.1, ih htail hrest h.2⟩
    · exact ⟨h.1.congr hc, ih htail hrest h.2⟩

/-- Agreement on the region of a node, split into its own note and the region of its children. -/
theorem Chronicle.AgreeOn.split {n : Node} {id : Nat} (hr : AgreeOn r s id (id + n.size)) :
    s.memory.find? id = r.memory.find? id ∧
      AgreeOn r s (id + 1) (id + 1 + Node.sizeAll n.children) := by
  have hsize := n.size_eq_children
  exact ⟨hr.notes id (Nat.le_refl _) (by omega), hr.mono (by omega) (by omega)⟩

/-- What is in progress at the head of a region. -/
theorem Chronicle.AgreeOn.open_of {n : Node} {id : Nat} (hr : AgreeOn r s id (id + n.size))
    (h : r.log.Open id) : s.log.Open id := by
  have hpos := n.size_pos
  rw [Log.Open, hr.log id id (Nat.le_refl _) (by omega) (Nat.le_refl _) (by omega)]
  exact h

/-- **Whether a node is in progress is read in its own region.** -/
theorem readsRegion (n : Node) : ReadsRegion n := by
  induction n with
  | leaf l =>
    intro r s clock id hr h
    simp only [Underway, hr.split.1] at h ⊢
    exact ⟨h.1, hr.open_of h.2⟩
  | sequence cs ih =>
    intro r s clock id hr h
    simp only [Underway, hr.split.1] at h ⊢
    obtain ⟨i, hnote, hat⟩ := h
    exact ⟨i, hnote, UnderwayAt.congr_of ih hr.split.2 hat⟩
  | selector cs ih =>
    intro r s clock id hr h
    simp only [Underway, hr.split.1] at h ⊢
    obtain ⟨i, hnote, hat⟩ := h
    exact ⟨i, hnote, UnderwayAt.congr_of ih hr.split.2 hat⟩
  | decorated d c ih =>
    intro r s clock id hr h
    have hsize : (Node.decorated d c).size = c.size + 1 := rfl
    have hc : Chronicle.AgreeOn r s (id + 1) (id + 1 + c.size) := hr.mono (by omega) (by omega)
    cases d with
    | inverter =>
      simp only [Underway, hr.split.1] at h ⊢
      exact ⟨h.1, ih hc h.2⟩
    | repeated count =>
      simp only [Underway, hr.split.1] at h ⊢
      obtain ⟨k, hnote, hk, hchild⟩ := h
      exact ⟨k, hnote, hk, ih hc hchild⟩
    | untilFail =>
      simp only [Underway, hr.split.1] at h ⊢
      exact ⟨h.1, hr.open_of h.2.1, h.2.2.imp (fun hblank => hblank.congr hc) (ih hc)⟩
    | timeout ticks =>
      simp only [Underway, hr.split.1] at h ⊢
      obtain ⟨started, hnote, hbounds, hgranted, hchild⟩ := h
      have hpos := c.size_pos
      refine ⟨started, hnote, hbounds, hgranted.congr ?_ ?_, ih hc hchild⟩
      · exact hr.log id id (Nat.le_refl _) (by omega) (Nat.le_refl _) (by omega)
      · exact hr.log id (id + 1) (Nat.le_refl _) (by omega) (by omega) (by omega)
  | parallel threshold cs ih =>
    intro r s clock id hr h
    have hsize : (Node.parallel threshold cs).size = Node.sizeAll cs + 1 := rfl
    simp only [Underway, hr.split.1] at h ⊢
    obtain ⟨slots, hnote, hstatus, htold, hopen⟩ := h
    refine ⟨slots, hnote, hstatus, htold.congr fun b _ _ => ?_,
      UnderwayOpen.congr_of ih hr.split.2 hopen⟩
    exact hr.log id b (Nat.le_refl _) (by omega) (by omega) (by omega)

/-- Whether a node is in progress is read off its region alone. -/
theorem Underway.congr {n : Node} {id : Nat} (h : Underway r clock n id)
    (hr : Chronicle.AgreeOn r s id (id + n.size)) : Underway s clock n id :=
  readsRegion n hr h

theorem UnderwayAt.congr {cs : List Node} {id i : Nat} (h : UnderwayAt r clock cs id i)
    (hr : Chronicle.AgreeOn r s id (id + Node.sizeAll cs)) : UnderwayAt s clock cs id i :=
  UnderwayAt.congr_of (fun c _ => readsRegion c) hr h

theorem UnderwayOpen.congr {cs : List Node} {id : Nat} {slots : List (Option Status)}
    (h : UnderwayOpen r clock cs id slots)
    (hr : Chronicle.AgreeOn r s id (id + Node.sizeAll cs)) : UnderwayOpen s clock cs id slots :=
  UnderwayOpen.congr_of (fun c _ => readsRegion c) hr h

theorem Stands.congr {n : Node} {id : Nat} (h : Stands r clock n id)
    (hr : Chronicle.AgreeOn r s id (id + n.size)) : Stands s clock n id :=
  h.imp (fun hblank => hblank.congr hr) fun hunderway => hunderway.congr hr

end Regions

end Herd
