import Herd.Proofs.Run.Active
import Herd.Proofs.Run.Frontier
import Herd.Proofs.Run.History

/-!
# The node that leads

Of the nodes in progress one leads: the first in pre-order that has none in progress below it
(`Log.Leads`). It is an action, or an until-fail whose child is idle, since any other node is in
progress on account of a child.

`attest_led`: an evaluation that answers `running` makes the node active that leads in its subtree.
The composites evaluate children in order, so the first child that is left running brings the lead
with it. Those after it leave the active node alone (`attest_keeps`), and those before it are blank.
-/

namespace Herd

universe u

/-- A node that is left running by itself, with nothing in progress below it. -/
def Node.Pauses (n : Node) : Prop :=
  (∃ name, n = .leaf (.action name)) ∨ ∃ c, n = .decorated .untilFail c

namespace Log

/-- Of the nodes that `node?` finds from the address `base` on, the one at `k` leads: it is in
progress, nothing below it is, and of the nodes before it only those above it are. -/
structure Leads (h : Log) (node? : Nat → Option Node) (base k : Nat) : Prop where
  node : ∃ j n, node? j = some n ∧ k = base + j ∧ n.Pauses ∧ h.Open k ∧
    ∀ b, k < b → b < k + n.size → ¬ h.Open b
  above : ∀ j n, node? j = some n → base + j ≤ k → h.Open (base + j) → k < base + j + n.size

namespace Leads

variable {h h' : Log} {node? : Nat → Option Node} {n c : Node} {cs : List Node}
  {base id first k : Nat}

/-- Whether a node leads is read off the region of the nodes alone. -/
theorem congr (hk : h.Leads node? base k) (hi : Nat)
    (hin : ∀ {j n}, node? j = some n → base + j + n.size ≤ hi)
    (hh : ∀ a, base ≤ a → a < hi → h'.since a a = h.since a a) : h'.Leads node? base k := by
  have hopen : ∀ {a}, base ≤ a → a < hi → (h'.Open a ↔ h.Open a) := fun hlo hhi => by
    rw [Open, Open, hh _ hlo hhi]
  obtain ⟨⟨j, n, hn, rfl, hpauses, hself, hbelow⟩, habove⟩ := hk
  have hnode := hin hn
  have hpos := n.size_pos
  refine ⟨⟨j, n, hn, rfl, hpauses, (hopen (by omega) (by omega)).mpr hself, fun b hlo hhi => ?_⟩,
    fun i m hm hle hm' => habove i m hm hle ((hopen (by omega) (by omega)).mp hm')⟩
  rw [hopen (by omega) (by omega)]
  exact hbelow b hlo hhi

theorem lt_size (hk : h.Leads n.descend id k) : k < id + n.size := by
  obtain ⟨j, m, hm, rfl, -⟩ := hk.node
  have hlt := Node.lt_size_of_descend hm
  omega

/-- The node that leads below a node leads in its subtree. -/
theorem parent (hk : h.Leads (Node.descendAll n.children) (id + 1) k) :
    h.Leads n.descend id k := by
  obtain ⟨⟨j, m, hm, rfl, hrest⟩, habove⟩ := hk
  have hlt := Node.lt_sizeAll_of_descendAll hm
  have hsize := n.size_eq_children
  refine ⟨⟨j + 1, m, by rw [n.descend_succ, hm], by omega, hrest⟩, fun i x hx hle hopen => ?_⟩
  cases i with
  | zero =>
    rw [n.descend_zero] at hx
    cases hx
    omega
  | succ i =>
    rw [n.descend_succ] at hx
    have hindex : id + (i + 1) = id + 1 + i := by omega
    rw [hindex] at hle hopen ⊢
    exact habove i x hx hle hopen

/-- The node that leads below the first sibling leads, whatever those after it do. -/
theorem head (hk : h.Leads c.descend first k) : h.Leads (Node.descendAll (c :: cs)) first k := by
  obtain ⟨⟨j, m, hm, rfl, hrest⟩, habove⟩ := hk
  have hlt := Node.lt_size_of_descend hm
  refine ⟨⟨j, m, by rw [Node.descendAll_of_lt cs hlt, hm], rfl, hrest⟩, fun i x hx hle hopen => ?_⟩
  rw [Node.descendAll_of_lt cs (by omega)] at hx
  exact habove i x hx hle hopen

/-- The node that leads below later siblings leads if the first has nothing in progress. -/
theorem tail (hk : h.Leads (Node.descendAll cs) (first + c.size) k)
    (hquiet : ∀ b, first ≤ b → b < first + c.size → ¬ h.Open b) :
    h.Leads (Node.descendAll (c :: cs)) first k := by
  obtain ⟨⟨j, m, hm, rfl, hrest⟩, habove⟩ := hk
  refine ⟨⟨c.size + j, m, ?_, by omega, hrest⟩, fun i x hx hle hopen => ?_⟩
  · rw [Node.descendAll_of_le cs (Nat.le_add_right _ _), Nat.add_sub_cancel_left, hm]
  · by_cases hi : i < c.size
    · exact absurd hopen (hquiet _ (by omega) (by omega))
    · rw [Node.descendAll_of_le cs (by omega)] at hx
      have hindex : first + i = first + c.size + (i - c.size) := by omega
      rw [hindex] at hle hopen ⊢
      exact habove _ x hx hle hopen

/-- A node that pauses leads in its subtree. -/
theorem self (hpauses : n.Pauses) (hopen : h.Open id)
    (hquiet : ∀ b, id < b → b < id + n.size → ¬ h.Open b) : h.Leads n.descend id id := by
  refine ⟨⟨0, n, n.descend_zero, rfl, hpauses, hopen, hquiet⟩, fun i x hx hle _ => ?_⟩
  obtain rfl : i = 0 := by omega
  exact Nat.lt_add_of_pos_right x.size_pos

/-- Of a part of the nodes in which it lies the node leads, too. -/
theorem restrict (hk : h.Leads node? base k) {part? : Nat → Option Node} {d j : Nat}
    (hpart : ∀ {i m}, part? i = some m → node? (d + i) = some m) (hj : part? j = some n)
    (hkj : k = base + d + j) : h.Leads part? (base + d) k := by
  obtain ⟨⟨i, m, hm, hki, hrest⟩, habove⟩ := hk
  obtain rfl : i = d + j := by omega
  obtain rfl : m = n := Option.some.inj (hm.symm.trans (hpart hj))
  refine ⟨⟨j, m, hj, hkj, hrest⟩, fun i x hx hle hopen => ?_⟩
  have hindex : base + d + i = base + (d + i) := Nat.add_assoc base d i
  rw [hindex] at hle hopen ⊢
  exact habove _ x (hpart hx) hle hopen

end Leads

end Log

/-! ## Evaluations -/

variable {σ : Type u} {leaf : LeafEvaluator σ} {now : Nat}

/-- Only actions take more than one tick. -/
def LeafEvaluator.Prompt (leaf : LeafEvaluator σ) : Prop :=
  ∀ (id : NodeId) (l : Leaf) (x : σ), (leaf id l x).1 = .running → ∃ name, l = .action name

/-- If an evaluation answered `running`, the node is active that leads among those that `node?`
finds. -/
def Led (node? : Nat → Option Node) (base : Nat) (r : Status × Visit (σ × Log)) : Prop :=
  r.1 = .running → ∃ k, r.2.active = some k ∧ r.2.log.Leads node? base k

/-- Evaluating the node activates the one that leads, if none is active yet. -/
def ActivatesLead (leaf : LeafEvaluator σ) (now : Nat) (n : Node) : Prop :=
  ∀ (id : Nat) (v : Visit (σ × Log)), Stands v.chronicle now n id → v.active = none →
    Led n.descend id (attest leaf now n id v)

/-- A node that is done leaves no node active. -/
theorem active_attest_of_isDone (leaf : LeafEvaluator σ) (now : Nat) (n : Node) (id : Nat)
    {v : Visit (σ × Log)} (hv : v.active = none)
    (hdone : (attest leaf now n id v).1.isDone = true) :
    (attest leaf now n id v).2.active = none := by
  have hmirrors := attest_mirrors leaf now n id v
  have hactive := active_evaluate_of_isDone leaf now n id (v := v.unlogged) hv
  rw [hmirrors] at hactive
  exact hactive hdone

/-! ### The active node stays -/

section Keeps

variable {k : Nat}

/-- Notes are left and dropped without touching what is active. -/
theorem passage_keeps (k id : Nat) :
    Passage id fun v w : Visit (σ × Log) => v.active = some k → w.active = some k where
  refl _ := fun h => h
  trans h₁ h₂ := fun h => h₂ (h₁ h)
  remember _ _ := fun h => h
  forget _ := fun h => h

/-- An active node outside the siblings stays active through all of them. -/
theorem attestAll_keeps {cs : List Node}
    (hcs : ∀ c ∈ cs, ∀ id : Nat, k < id ∨ id + c.size ≤ k →
      Moves (fun v w => v.active = some k → w.active = some k) (attest leaf now c id)) :
    ∀ first : Nat, k < first ∨ first + Node.sizeAll cs ≤ k →
      ∀ f ∈ attestAll leaf now cs first,
        Moves (fun v w => v.active = some k → w.active = some k) f := by
  induction cs with
  | nil => exact fun _ _ f hf => absurd hf List.not_mem_nil
  | cons c cs ih =>
    intro first hout f hf
    rw [Node.sizeAll] at hout
    simp only [attestAll] at hf
    rcases List.mem_cons.mp hf with rfl | hf
    · exact hcs c List.mem_cons_self first (by omega)
    · exact ih (fun d hd => hcs d (List.mem_cons_of_mem _ hd)) _ (by omega) f hf

/-- A node that is active outside the subtree stays so. -/
theorem attest_keeps (n : Node) : ∀ id : Nat, k < id ∨ id + n.size ≤ k →
    Moves (fun v w => v.active = some k → w.active = some k) (attest leaf now n id) := by
  induction n using Node.children_induction with
  | step n ih =>
    intro id hout v hv
    have hsize := n.size_eq_children
    have hbody := bodyOf_moves leaf now (passage_keeps k id) (fun _ _ h => h)
      (attestAll_keeps ih (id + 1) (by omega)) v hv
    rw [attest_eq]
    simp only [entered, settled, Visit.settle]
    split
    · have hkept : Visit.outside id n.size k = true := Visit.outside_eq_true.mpr hout
      simp only [hbody, Option.filter_some, hkept, if_true]
    · simp only [hbody, Option.some_or]

/-- So do siblings after it. -/
theorem attestAll_keeps_of_lt (leaf : LeafEvaluator σ) (now : Nat) (cs : List Node) (first : Nat)
    (hk : k < first) : ∀ f ∈ attestAll leaf now cs first,
      Moves (fun v w => v.active = some k → w.active = some k) f :=
  attestAll_keeps (fun c _ => attest_keeps c) first (.inl hk)

end Keeps

/-! ### Taking leave -/

/-- The node is left with the lead from below, or pauses itself. -/
theorem led_of_body {n : Node} {id : Nat} {v w : Visit (σ × Log)} {status : Status}
    (hbody : bodyOf leaf now id n v = (status, w))
    (hled : status = .running →
      (∃ k, w.active = some k ∧ w.log.Leads (Node.descendAll n.children) (id + 1) k) ∨
        (w.active = none ∧ n.Pauses ∧ ∀ b, id < b → b < id + n.size → ¬ w.log.Open b)) :
    Led n.descend id (attest leaf now n id v) := by
  have hstatus : (attest leaf now n id v).1 = status := by
    rw [attest_eq]
    simp only [entered, settled, hbody]
  have hactive : (attest leaf now n id v).2.active = (w.settle id n.size status).active := by
    rw [attest_eq]
    simp only [entered, settled, hbody]
  have hlog := log_attest leaf now n id v
  rw [hbody, hstatus] at hlog
  intro hrunning
  rw [hstatus] at hrunning
  subst hrunning
  -- the entry of the node is nothing to those below it
  have hsince : ∀ a, id < a → (attest leaf now n id v).2.log.since a a = w.log.since a a := by
    intro a ha
    rw [hlog]
    exact Log.since_cons_of_ne (Evaluation.ends_of_running rfl) (Nat.ne_of_lt ha)
  rw [hactive]
  rcases hled rfl with ⟨k, hk, hleads⟩ | ⟨hnone, hpauses, hquiet⟩
  · refine ⟨k, by simp [Visit.settle, Status.isDone, hk], .parent ?_⟩
    refine hleads.congr (id + 1 + Node.sizeAll n.children) (fun hm => ?_)
      fun a hlo _ => hsince a (by omega)
    have hin := Node.add_size_le_of_descendAll (fun c _ => c.add_size_le_of_descend) hm
    omega
  · refine ⟨id, by simp [Visit.settle, Status.isDone, hnone], .self hpauses ?_ fun b hlo hhi => ?_⟩
    · rw [hlog]
      exact Log.open_cons rfl rfl
    · rw [Log.Open, hsince b hlo]
      exact hquiet b hlo hhi

/-! ### Composites -/

section Lead

variable {c : Node} {cs : List Node} {first : Nat} {v w : Visit (σ × Log)}

/-- The lead of later siblings is the lead of all, where the first is blank. -/
theorem lead_tail (hblank : w.chronicle.BlankOn first (first + c.size))
    (hlead : ∃ k, w.active = some k ∧ w.log.Leads (Node.descendAll cs) (first + c.size) k) :
    ∃ k, w.active = some k ∧ w.log.Leads (Node.descendAll (c :: cs)) first k := by
  obtain ⟨k, hk, hleads⟩ := hlead
  exact ⟨k, hk, hleads.tail fun b hlo hhi => hblank.not_open hlo hhi⟩

/-- The lead of the first sibling is the lead of all, also after the others were evaluated. -/
theorem lead_head (hlead : ∃ k, v.active = some k ∧ v.log.Leads c.descend first k)
    (hagree : Chronicle.AgreeOn v.chronicle w.chronicle first (first + c.size))
    (hkept : ∀ k, k < first + c.size → v.active = some k → w.active = some k) :
    ∃ k, w.active = some k ∧ w.log.Leads (Node.descendAll (c :: cs)) first k := by
  obtain ⟨k, hk, hleads⟩ := hlead
  have hstill : w.log.Leads c.descend first k := by
    refine hleads.congr (first + c.size) (fun hm => ?_) fun a hlo hhi =>
      hagree.log a a hlo hhi hlo hhi
    have hin := c.add_size_le_of_descend hm
    omega
  exact ⟨k, hkept k hleads.lt_size hk, hstill.head⟩

end Lead

section Siblings

variable (hnow : 1 ≤ now) {cs : List Node} (hcs : ∀ c ∈ cs, ActivatesLead leaf now c)

include hnow hcs

/-- Siblings in order: the one that stops them brings the lead, since those before it are done. -/
theorem ordered_led {goOn : Status} (hgoOn : goOn.isDone = true) {id : Nat} :
    ∀ {first index : Nat} {v : Visit (σ × Log)}, id < first → v.active = none →
      StandsAll v.chronicle now cs first →
      Led (Node.descendAll cs) first
        (ordered goOn id index (attestAll leaf now cs first) v) := by
  induction cs with
  | nil =>
    intro first index v _ _ _ hrunning
    simp only [attestAll, ordered] at hrunning
    rw [hrunning] at hgoOn
    cases hgoOn
  | cons c cs ih =>
    intro first index v hid hv hstands
    have hchild := attest_course leaf hnow c first v hstands.1
    have hled := hcs c List.mem_cons_self first v hstands.1 hv
    have hactive := active_attest_of_isDone leaf now c first hv
    have hrest : Moves (ConfinedAll id cs (first + c.size))
        (ordered goOn id (index + 1) (attestAll leaf now cs (first + c.size))) :=
      ordered_confined goOn cs id (first + c.size) (index + 1) 0
    simp only [attestAll, ordered]
    rcases hr : attest leaf now c first v with ⟨status, w⟩
    rw [hr] at hchild hled hactive
    by_cases hstatus : status = goOn
    · rw [if_pos hstatus]
      subst hstatus
      intro hrunning
      have hblank := (hchild.done hgoOn).congr
        ((hrest w).agreeOn (.inl hid) (.inl (Nat.le_refl _)))
      have hstands' := hstands.2.congr (hchild.confined.agreeOn (.inr (Nat.le_refl _)))
      exact lead_tail hblank (ih (fun d hd => hcs d (List.mem_cons_of_mem _ hd)) (by omega)
        (hactive hgoOn) hstands' hrunning)
    · rw [if_neg hstatus]
      by_cases hrunning : status = .running
      · rw [if_pos hrunning]
        intro _
        obtain ⟨k, hk, hleads⟩ := hled hrunning
        exact ⟨k, hk, hleads.head⟩
      · rw [if_neg hrunning]
        exact fun h => absurd h hrunning

/-- The same where the siblings are taken up at the one that is in progress. -/
theorem ordered_resumed_led {goOn : Status} (hgoOn : goOn.isDone = true) {id index : Nat} :
    ∀ {first i : Nat} {v : Visit (σ × Log)}, id < first → v.active = none →
      UnderwayAt v.chronicle now cs first i →
      Led (Node.descendAll cs) first
        (ordered goOn id index ((attestAll leaf now cs first).drop i) v) := by
  induction cs with
  | nil =>
    intro first i v _ _ h
    simp only [UnderwayAt] at h
  | cons c cs ih =>
    intro first i v hid hv h
    cases i with
    | zero => exact ordered_led hnow hcs hgoOn hid hv h.standsAll
    | succ i =>
      simp only [UnderwayAt] at h
      have hrest : Moves (ConfinedAll id cs (first + c.size))
          (ordered goOn id index ((attestAll leaf now cs (first + c.size)).drop i)) :=
        ordered_confined goOn cs id (first + c.size) index i
      have hblank := h.1.congr ((hrest v).agreeOn (.inl hid) (.inl (Nat.le_refl _)))
      simp only [attestAll, List.drop_succ_cons]
      intro hrunning
      exact lead_tail hblank (ih (fun d hd => hcs d (List.mem_cons_of_mem _ hd)) (by omega) hv
        h.2 hrunning)

/-- Children of a parallel node: the first that is left with an open slot brings the lead. -/
theorem fillSlots_led {id : Nat} : ∀ {first : Nat} {slots : List (Option Status)}
    {v : Visit (σ × Log)}, id < first → v.active = none →
    StandsOpen v.chronicle now cs first slots →
    none ∈ (fillSlots slots (attestAll leaf now cs first) v).1 →
    ∃ k, (fillSlots slots (attestAll leaf now cs first) v).2.active = some k ∧
      (fillSlots slots (attestAll leaf now cs first) v).2.log.Leads (Node.descendAll cs)
        first k := by
  induction cs with
  | nil =>
    intro first slots v _ _ hstands hopen
    cases slots with
    | nil => exact absurd hopen List.not_mem_nil
    | cons slot slots => simp only [StandsOpen] at hstands
  | cons c cs ih =>
    intro first slots v hid hv hstands hopen
    have htail : ∀ d ∈ cs, ActivatesLead leaf now d := fun d hd =>
      hcs d (List.mem_cons_of_mem _ hd)
    rcases slots with _ | ⟨_ | finished, slots⟩ <;> simp only [StandsOpen] at hstands
    · have hchild := attest_course leaf hnow c first v hstands.1
      have hled := hcs c List.mem_cons_self first v hstands.1 hv
      have hactive := active_attest_of_isDone leaf now c first hv
      simp only [attestAll, fillSlots] at hopen ⊢
      rcases hr : attest leaf now c first v with ⟨status, w⟩
      rw [hr] at hchild hled hactive hopen
      have hrest : ConfinedAll id cs (first + c.size) w
          (fillSlots slots (attestAll leaf now cs (first + c.size)) w).2 :=
        fillSlots_confined cs id (first + c.size) slots w
      have hagree : Chronicle.AgreeOn w.chronicle
          (fillSlots slots (attestAll leaf now cs (first + c.size)) w).2.chronicle first
          (first + c.size) := hrest.agreeOn (.inl hid) (.inl (Nat.le_refl _))
      by_cases hdone : status.isDone = true
      · have hstands' := hstands.2.congr (hchild.confined.agreeOn (.inr (Nat.le_refl _)))
        have hblank := (hchild.done hdone).congr hagree
        simp only [hdone, if_true, List.mem_cons, reduceCtorEq, false_or] at hopen
        exact lead_tail hblank (ih htail (by omega) (hactive hdone) hstands' hopen)
      · -- the siblings after it leave the active node alone
        exact lead_head (hled (Status.eq_running_of_not_isDone hdone)) hagree fun k hk hactive' =>
          (passage_keeps k id).fillSlots (attestAll_keeps_of_lt leaf now cs (first + c.size) hk)
            slots w hactive'
    · have hrest : ConfinedAll id cs (first + c.size) v
          (fillSlots slots (attestAll leaf now cs (first + c.size)) v).2 :=
        fillSlots_confined cs id (first + c.size) slots v
      have hblank := hstands.1.congr (hrest.agreeOn (.inl hid) (.inl (Nat.le_refl _)))
      simp only [attestAll, fillSlots, List.mem_cons, reduceCtorEq, false_or] at hopen ⊢
      exact lead_tail hblank (ih htail (by omega) hv hstands.2 hopen)

end Siblings

/-- A node that runs its children in order, whichever answer lets it go on. -/
theorem inOrder_led (hnow : 1 ≤ now) {n : Node} {goOn : Status} (hgoOn : goOn.isDone = true)
    (hunderway : ∀ {r : Chronicle} {clock id : Nat}, Underway r clock n id ↔
      ∃ i, r.memory.find? id = some (.cursor i) ∧ UnderwayAt r clock n.children (id + 1) i)
    (hbody : ∀ id, bodyOf leaf now id n =
      resumed goOn id (attestAll leaf now n.children (id + 1)))
    (hcs : ∀ c ∈ n.children, ActivatesLead leaf now c) : ActivatesLead leaf now n := by
  intro id v hstands hv
  rcases hr : bodyOf leaf now id n v with ⟨status, w⟩
  refine led_of_body hr fun hrunning => .inl ?_
  have hled : Led (Node.descendAll n.children) (id + 1) (bodyOf leaf now id n v) := by
    rw [hbody]
    rcases hstands with hblank | hunderway'
    · have hcursor : v.cursorAt id = 0 := by
        rw [Visit.cursorAt, hblank.notes id (Nat.le_refl _) (Nat.lt_add_of_pos_right n.size_pos)]
      have hchildren : StandsAll v.chronicle now n.children (id + 1) :=
        Stands.children (.inl hblank)
      simp only [resumed, hcursor, List.drop_zero]
      exact ordered_led hnow hcs hgoOn (Nat.lt_succ_self id) hv hchildren
    · obtain ⟨i, hnote, hat⟩ := hunderway.mp hunderway'
      have hcursor : v.cursorAt id = i := by rw [Visit.cursorAt, hnote]
      simp only [resumed, hcursor]
      exact ordered_resumed_led hnow hcs hgoOn (Nat.lt_succ_self id) hv hat
  rw [hr] at hled
  exact hled hrunning

/-- A parallel node activates the node that leads, if its children do. -/
theorem parallel_led (hnow : 1 ≤ now) {threshold : Nat} {cs : List Node}
    (hcs : ∀ c ∈ cs, ActivatesLead leaf now c) :
    ActivatesLead leaf now (.parallel threshold cs) := by
  intro id v hstands hv
  have hstands' := hstands.slotsAt.1.congr (v.agreeOn_forget (.inl (Nat.lt_succ_self id)))
  have hled := fillSlots_led hnow hcs (v := v.forget id) (Nat.lt_succ_self id) hv hstands'
  rcases hfill : fillSlots (v.slotsAt id cs.length) (attestAll leaf now cs (id + 1)) (v.forget id)
    with ⟨slots, w⟩
  rw [hfill] at hled
  by_cases hstatus : parallelStatus threshold slots = .running
  · exact led_of_body (bodyOf_parallel_running hfill hstatus) fun _ =>
      .inl (hled (parallelStatus_eq_running hstatus).1)
  · exact led_of_body (bodyOf_parallel_done hfill hstatus) fun hrunning =>
      absurd hrunning hstatus

section Decorated

variable (hnow : 1 ≤ now) {c : Node} (hc : ActivatesLead leaf now c) {id : Nat}

include hnow hc

/-- The run of the child that does not end brings the lead; the ones before it did end. -/
theorem repeatChild_led : ∀ {remaining done : Nat} {v : Visit (σ × Log)}, v.active = none →
    Stands v.chronicle now c (id + 1) →
    Led c.descend (id + 1) (repeatChild id (attest leaf now c (id + 1)) remaining done v) := by
  intro remaining
  induction remaining with
  | zero =>
    intro done v _ _ hrunning
    simp only [repeatChild, reduceCtorEq] at hrunning
  | succ remaining ih =>
    intro done v hv hstands
    have hchild := attest_course leaf hnow c (id + 1) v hstands
    have hled := hc (id + 1) v hstands hv
    have hactive := active_attest_of_isDone leaf now c (id + 1) hv
    rcases hr : attest leaf now c (id + 1) v with ⟨status, w⟩
    rw [hr] at hchild hled hactive
    simp only [repeatChild, hr]
    cases status with
    | success => exact ih (hactive rfl) (.inl (hchild.done rfl))
    | failure =>
      intro hrunning
      simp only [reduceCtorEq] at hrunning
    | running => exact hled

theorem decorated_led (d : Decorator) : ActivatesLead leaf now (.decorated d c) := by
  intro id v hstands hv
  have hsize : (Node.decorated d c).size = c.size + 1 := rfl
  have hbelow : Stands v.chronicle now c (id + 1) := hstands.children.1
  have hchild := attest_course leaf hnow c (id + 1) v hbelow
  have hled := hc (id + 1) v hbelow hv
  have hactive := active_attest_of_isDone leaf now c (id + 1) hv
  rcases hr : attest leaf now c (id + 1) v with ⟨status, w⟩
  rw [hr] at hchild hled hactive
  have hlead : status = .running →
      ∃ k, w.active = some k ∧ w.log.Leads (Node.descendAll [c]) (id + 1) k := fun hrunning =>
    (hled hrunning).imp fun k hk => hk.imp_right .head
  cases d with
  | inverter =>
    refine led_of_body (bodyOf_inverter hr) fun hrunning => .inl (hlead ?_)
    cases status with
    | running => rfl
    | success => cases hrunning
    | failure => cases hrunning
  | repeated count =>
    have hrepeated : Led c.descend (id + 1)
        (bodyOf leaf now id (.decorated (.repeated count) c) v) := repeatChild_led hnow hc hv hbelow
    exact led_of_body rfl fun hrunning =>
      .inl ((hrepeated hrunning).imp fun k hk => hk.imp_right .head)
  | untilFail =>
    refine led_of_body (bodyOf_untilFail hr) fun hrunning => ?_
    cases status with
    | running => exact .inl (hlead rfl)
    | success =>
      exact .inr ⟨hactive rfl, .inr ⟨c, rfl⟩, fun b hlo hhi =>
        (hchild.done rfl).not_open hlo (by omega)⟩
    | failure => cases hrunning
  | timeout ticks =>
    by_cases hspent : ticks ≤ now - v.startedAt id now
    · exact led_of_body (bodyOf_timeout_spent hspent) fun hrunning =>
        absurd hrunning (by decide)
    · by_cases hstatus : status = .running
      · subst hstatus
        exact led_of_body (bodyOf_timeout_running hspent hr) fun _ => .inl (hlead rfl)
      · exact led_of_body (bodyOf_timeout_done hspent hr hstatus) fun hrunning =>
          absurd hrunning hstatus

end Decorated

/-- **An evaluation activates the node that leads**, for every node, wherever it lies and however it
stands, if only actions take more than one tick. -/
theorem attest_led (hleaf : leaf.Prompt) (hnow : 1 ≤ now) (n : Node) :
    ActivatesLead leaf now n := by
  induction n with
  | leaf l =>
    intro id v _ hv
    rcases hr : leaf.beside id l v.leaves with ⟨status, x⟩
    have hbody : bodyOf leaf now id (.leaf l) v = (status, { v with leaves := x }) := by
      simp only [bodyOf, hr]
    have hsize : (Node.leaf l).size = 1 := rfl
    refine led_of_body hbody fun hrunning => .inr ⟨hv, .inl ?_, fun b hlo hhi => by omega⟩
    have hanswer : (leaf id l v.leaves.1).1 = status := congrArg Prod.fst hr
    obtain ⟨name, rfl⟩ := hleaf id l v.leaves.1 (hanswer.trans hrunning)
    exact ⟨name, rfl⟩
  | sequence cs ih =>
    exact inOrder_led hnow (show Status.success.isDone = true from rfl)
      (by simp only [Underway, Node.children, implies_true]) (fun _ => rfl) ih
  | selector cs ih =>
    exact inOrder_led hnow (show Status.failure.isDone = true from rfl)
      (by simp only [Underway, Node.children, implies_true]) (fun _ => rfl) ih
  | decorated d c ih => exact decorated_led hnow ih d
  | parallel threshold cs ih => exact parallel_led hnow ih

end Herd
