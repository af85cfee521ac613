import Mathlib.Data.List.Forall2
import Herd.Proofs.Tree.Preorder
import Herd.Run.Step

/-!
# A tick is a conversation with its leaves

A step asks leaves one after another, and what it asks next depends on the answers so far
and on nothing else that is the leaves' own. `RunState.exchanges` lists the questions of a
step with their answers. They settle the step: any other leaves that give the same answers
to these questions bring the run to the same status and the same state
(`RunState.step_of_gives`), whatever they do to a state of their own. The answers alone
settle it too, since they settle the questions (`RunState.step_of_heard`).

What is asked is a leaf of the tree at its address (`RunState.node?_of_mem_exchanges`).
-/

namespace Herd

universe u v

variable {σ : Type u} {τ : Type v}

/-- A leaf that was asked, and its answer. -/
structure Exchange where
  node : NodeId
  leaf : Leaf
  status : Status
deriving DecidableEq

namespace LeafEvaluator

/-- Asked in order what the exchanges ask, the leaves give the answers of the exchanges, and their
state goes from the first to the second. -/
def Gives (leaf : LeafEvaluator σ) : List Exchange → σ → σ → Prop
  | [], x, y => y = x
  | q :: rest, x, z => ∃ y, leaf q.node q.leaf x = (q.status, y) ∧ leaf.Gives rest y z

/-- A conversation is held in two parts as it is in one. -/
theorem gives_append {leaf : LeafEvaluator σ} {first second : List Exchange} :
    ∀ {x z : σ}, leaf.Gives (first ++ second) x z ↔
      ∃ y, leaf.Gives first x y ∧ leaf.Gives second y z := by
  induction first with
  | nil =>
    intro x z
    exact ⟨fun h => ⟨x, rfl, h⟩, fun ⟨y, hy, h⟩ => hy ▸ h⟩
  | cons q rest ih =>
    intro x z
    simp only [List.cons_append, Gives, ih]
    constructor
    · rintro ⟨x', hx', y, hrest, h⟩
      exact ⟨y, ⟨x', hx', hrest⟩, h⟩
    · rintro ⟨y, ⟨x', hx', hrest⟩, h⟩
      exact ⟨x', hx', y, hrest, h⟩

/-- What each leaf keeps is kept by a conversation. -/
theorem Gives.invariant {leaf : LeafEvaluator σ} {I : σ → Prop}
    (hleaf : ∀ id l x, I x → I (leaf id l x).2) {talk : List Exchange} :
    ∀ {x y : σ}, leaf.Gives talk x y → I x → I y := by
  induction talk with
  | nil =>
    rintro x y rfl hx
    exact hx
  | cons q rest ih =>
    rintro x z ⟨y, hy, h⟩ hx
    have hkept := hleaf q.node q.leaf x hx
    rw [hy] at hkept
    exact ih h hkept

/-- The same leaves, which keep a list of the exchanges. -/
def logged (leaf : LeafEvaluator σ) : LeafEvaluator (σ × List Exchange) := fun id l s =>
  match leaf id l s.1 with
  | (status, x) => (status, (x, s.2 ++ [⟨id, l, status⟩]))

/-- The list that is kept is that of the exchanges. -/
theorem gives_logged {leaf : LeafEvaluator σ} {talk : List Exchange} :
    ∀ {s s' : σ × List Exchange}, leaf.logged.Gives talk s s' →
      leaf.Gives talk s.1 s'.1 ∧ s'.2 = s.2 ++ talk := by
  induction talk with
  | nil =>
    rintro s s' rfl
    exact ⟨rfl, (List.append_nil _).symm⟩
  | cons q rest ih =>
    rintro s s' ⟨y, hy, h⟩
    obtain ⟨hrest, hlog⟩ := ih h
    cases hanswer : leaf q.node q.leaf s.1 with
    | mk status x =>
      simp only [logged, hanswer, Prod.mk.injEq] at hy
      obtain ⟨rfl, rfl⟩ := hy
      exact ⟨⟨x, hanswer, hrest⟩, by rw [hlog, List.append_assoc, List.singleton_append]⟩

/-- Leaves that say what they are told to, one after another. -/
def reciting : LeafEvaluator (List Status)
  | _, _, [] => (.failure, [])
  | _, _, status :: rest => (status, rest)

/-- Leaves that are told the answers of a conversation give it. -/
theorem gives_reciting (talk : List Exchange) (rest : List Status) :
    reciting.Gives talk (talk.map (·.status) ++ rest) rest := by
  induction talk with
  | nil => exact rfl
  | cons q talk ih => exact ⟨_, rfl, ih⟩

end LeafEvaluator

/-! ## Evaluations over other leaves -/

/-- The same visit, with another state of the leaves. -/
def Visit.over (v : Visit σ) (y : τ) : Visit τ := ⟨v.memory, v.active, y⟩

/-- `r` comes of a conversation with the leaves `a` from state `x`, of exchanges that are all `P`;
and where the leaves `b` hold the same conversation, `k` comes to the same. -/
def Spoken (a : LeafEvaluator σ) (b : LeafEvaluator τ) (P : Exchange → Prop) {ω : Type} (x : σ)
    (r : ω × Visit σ) (k : τ → ω × Visit τ) : Prop :=
  ∃ talk : List Exchange, a.Gives talk x r.2.leaves ∧ (∀ q ∈ talk, P q) ∧
    ∀ y z, b.Gives talk y z → k y = (r.1, r.2.over z)

/-- An evaluator over the leaves `a`, and the same over the leaves `b`. -/
def Converses (a : LeafEvaluator σ) (b : LeafEvaluator τ) (P : Exchange → Prop)
    (f : Evaluator σ) (g : Evaluator τ) : Prop :=
  ∀ v : Visit σ, Spoken a b P v.leaves (f v) fun y => g (v.over y)

section Evaluations

variable {a : LeafEvaluator σ} {b : LeafEvaluator τ} {P : Exchange → Prop} {ω ω' : Type} {x : σ}

/-- No leaf is asked. -/
theorem Spoken.silent {r : ω × Visit σ} {k : τ → ω × Visit τ} (hx : r.2.leaves = x)
    (hk : ∀ y, k y = (r.1, r.2.over y)) : Spoken a b P x r k :=
  ⟨[], hx, fun _ hq => absurd hq List.not_mem_nil, fun y _ hz => hz ▸ hk y⟩

/-- One conversation after another. -/
theorem Spoken.andThen {r : ω × Visit σ} {k : τ → ω × Visit τ} {r' : ω' × Visit σ}
    {k' k'' : τ → ω' × Visit τ} (h : Spoken a b P x r k) (h' : Spoken a b P r.2.leaves r' k')
    (hk : ∀ y z, k y = (r.1, r.2.over z) → k'' y = k' z) : Spoken a b P x r' k'' := by
  obtain ⟨talk, hgives, hP, hsame⟩ := h
  obtain ⟨talk', hgives', hP', hsame'⟩ := h'
  refine ⟨talk ++ talk', LeafEvaluator.gives_append.mpr ⟨_, hgives, hgives'⟩, ?_, ?_⟩
  · exact List.forall_mem_append.mpr ⟨hP, hP'⟩
  · intro y z h
    obtain ⟨w, hw, hz⟩ := LeafEvaluator.gives_append.mp h
    rw [hk y w (hsame y w hw)]
    exact hsame' w z hz

/-- What is done after a conversation, without asking further. -/
theorem Spoken.map {r : ω × Visit σ} {k : τ → ω × Visit τ} {r' : ω' × Visit σ}
    {k' : τ → ω' × Visit τ} (h : Spoken a b P x r k) (hleaves : r'.2.leaves = r.2.leaves)
    (hk : ∀ y z, k y = (r.1, r.2.over z) → k' y = (r'.1, r'.2.over z)) : Spoken a b P x r' k' :=
  h.andThen (.silent hleaves fun _ => rfl) hk

variable {id : NodeId}

/-- The conversations of children in order make one conversation. -/
theorem ordered_converses (goOn : Status) {fs : List (Evaluator σ)} {gs : List (Evaluator τ)}
    (h : List.Forall₂ (Converses a b P) fs gs) :
    ∀ index : Nat, Converses a b P (ordered goOn id index fs) (ordered goOn id index gs) := by
  induction h with
  | nil => exact fun index v => .silent rfl fun y => rfl
  | @cons f g fs gs hfg _ ih =>
    intro index v
    by_cases hgoOn : (f v).1 = goOn
    · simp only [ordered, if_pos hgoOn]
      refine (hfg v).andThen (ih (index + 1) (f v).2) fun y z hy => ?_
      simp only [hy, if_pos hgoOn]
    · simp only [ordered, if_neg hgoOn]
      by_cases hrunning : (f v).1 = .running
      · simp only [if_pos hrunning]
        refine (hfg v).map rfl fun y z hy => ?_
        simp only [hy, if_neg hgoOn, if_pos hrunning]
        rfl
      · simp only [if_neg hrunning]
        refine (hfg v).map rfl fun y z hy => ?_
        simp only [hy, if_neg hgoOn, if_neg hrunning]

theorem resumed_converses (goOn : Status) {fs : List (Evaluator σ)} {gs : List (Evaluator τ)}
    (h : List.Forall₂ (Converses a b P) fs gs) :
    Converses a b P (resumed goOn id fs) (resumed goOn id gs) :=
  fun v => ordered_converses goOn (List.forall₂_drop _ h) (v.cursorAt id) v

/-- The children of a parallel node that are not done speak one after another. -/
theorem fillSlots_spoken {fs : List (Evaluator σ)} {gs : List (Evaluator τ)}
    (h : List.Forall₂ (Converses a b P) fs gs) :
    ∀ (slots : List (Option Status)) (v : Visit σ),
      Spoken a b P v.leaves (fillSlots slots fs v) fun y => fillSlots slots gs (v.over y) := by
  induction h with
  | nil =>
    intro slots v
    rcases slots with _ | ⟨_ | _, _⟩ <;> exact .silent rfl fun y => rfl
  | @cons f g fs gs hfg _ ih =>
    intro slots v
    rcases slots with _ | ⟨_ | done, slots⟩
    · exact .silent rfl fun y => rfl
    · -- the slot of the child stands before what comes of the others
      have hrest : Spoken a b P (f v).2.leaves (fillSlots (none :: slots) (f :: fs) v)
          fun y => ((if (f v).1.isDone then some (f v).1 else none) ::
            (fillSlots slots gs ((f v).2.over y)).1, (fillSlots slots gs ((f v).2.over y)).2) := by
        refine (ih slots (f v).2).map rfl fun y z hy => ?_
        rw [hy]
        rfl
      refine (hfg v).andThen hrest fun y z hy => ?_
      simp only [fillSlots, hy]
    · simp only [fillSlots]
      refine (ih slots v).map rfl fun y z hy => ?_
      simp only [hy]

theorem parallel_converses (threshold : Nat) {fs : List (Evaluator σ)} {gs : List (Evaluator τ)}
    (h : List.Forall₂ (Converses a b P) fs gs) :
    Converses a b P (parallel threshold id fs) (parallel threshold id gs) := by
  intro v
  have hfill := fillSlots_spoken h (v.slotsAt id fs.length) (v.forget id)
  have hslots : ∀ y : τ, (v.over y).slotsAt id gs.length = v.slotsAt id fs.length := by
    intro y
    rw [← h.length_eq]
    rfl
  simp only [parallel, hslots]
  cases hstatus : parallelStatus threshold (fillSlots (v.slotsAt id fs.length) fs (v.forget id)).1
    with
  | running =>
    refine hfill.map rfl fun y z (hy : fillSlots _ gs ((v.over y).forget id) = _) => ?_
    simp only [hy, hstatus]
    rfl
  | success | failure =>
    refine hfill.map rfl fun y z (hy : fillSlots _ gs ((v.over y).forget id) = _) => ?_
    simp only [hy, hstatus]

theorem repeatChild_converses {f : Evaluator σ} {g : Evaluator τ} (h : Converses a b P f g)
    (remaining : Nat) : ∀ done : Nat, Converses a b P (repeatChild id f remaining done)
      (repeatChild id g remaining done) := by
  induction remaining with
  | zero => exact fun done v => .silent rfl fun y => rfl
  | succ remaining ih =>
    intro done v
    have hchild := h v
    simp only [repeatChild]
    rcases hf : f v with ⟨_ | _ | _, w⟩
    · rw [hf] at hchild
      refine hchild.andThen (ih (done + 1) w) fun y z hy => ?_
      simp only [hy]
    · rw [hf] at hchild
      refine hchild.map rfl fun y z hy => ?_
      simp only [hy]
    · rw [hf] at hchild
      refine hchild.map rfl fun y z hy => ?_
      simp only [hy]
      rfl

theorem decorate_converses (now : Nat) {f : Evaluator σ} {g : Evaluator τ}
    (h : Converses a b P f g) (d : Decorator) :
    Converses a b P (decorate now id f d) (decorate now id g d) := by
  intro v
  have hchild := h v
  cases d with
  | inverter =>
    refine hchild.map rfl fun y z hy => ?_
    simp only [decorate, hy]
  | repeated count => exact repeatChild_converses h _ _ v
  | untilFail =>
    simp only [decorate]
    rcases hf : f v with ⟨_ | _ | _, w⟩
    all_goals
      rw [hf] at hchild
      refine hchild.map rfl fun y z hy => ?_
      simp only [hy]
  | timeout ticks =>
    have hstarted : ∀ y : τ, (v.over y).startedAt id now = v.startedAt id now := fun y => rfl
    simp only [decorate, hstarted]
    by_cases hspent : ticks ≤ now - v.startedAt id now
    · simp only [if_pos hspent]
      exact .silent rfl fun y => rfl
    · simp only [if_neg hspent]
      rcases hf : f v with ⟨_ | _ | _, w⟩
      · rw [hf] at hchild
        refine hchild.map rfl fun y z hy => ?_
        simp only [hy]
      · rw [hf] at hchild
        refine hchild.map rfl fun y z hy => ?_
        simp only [hy]
      · rw [hf] at hchild
        refine hchild.map rfl fun y z hy => ?_
        simp only [hy]
        rfl

/-- To take leave nothing is said. -/
theorem settled_converses {size : Nat} {f : Evaluator σ} {g : Evaluator τ}
    (h : Converses a b P f g) : Converses a b P (settled id size f) (settled id size g) := by
  intro v
  refine (h v).map ?_ fun y z hy => ?_
  · simp only [settled, Visit.settle]
    split <;> rfl
  · simp only [settled, hy, Visit.settle]
    split <;> rfl

end Evaluations

/-! ## Nodes -/

section Nodes

variable (a : LeafEvaluator σ) (b : LeafEvaluator τ) (now : Nat) {P : Exchange → Prop}

/-- The evaluators of siblings, of which each asks leaves below it. -/
theorem evaluators_converses {cs : List Node}
    (hcs : ∀ c ∈ cs, ∀ id : Nat,
      (∀ k l status, c.descend k = some (.leaf l) → P ⟨id + k, l, status⟩) →
      Converses a b P (evaluate a now c id) (evaluate b now c id)) :
    ∀ first : Nat,
      (∀ k l status, Node.descendAll cs k = some (.leaf l) → P ⟨first + k, l, status⟩) →
      List.Forall₂ (Converses a b P) (evaluators a now cs first) (evaluators b now cs first) := by
  induction cs with
  | nil => exact fun first _ => .nil
  | cons c cs ih =>
    intro first hP
    simp only [evaluators]
    refine .cons (hcs c List.mem_cons_self first fun k l status hk => hP k l status ?_)
      (ih (fun d hd => hcs d (List.mem_cons_of_mem _ hd)) (first + c.size)
        fun k l status hk => ?_)
    · rw [Node.descendAll, if_pos (Node.lt_size_of_descend hk)]
      exact hk
    · have hrest : Node.descendAll (c :: cs) (c.size + k) = some (.leaf l) := by
        rw [Node.descendAll, if_neg (by omega), Nat.add_sub_cancel_left]
        exact hk
      rw [Nat.add_assoc]
      exact hP _ l status hrest

/-- **An evaluation is a conversation**: it asks leaves of the subtree, each at its address, and
over any other leaves that hold the same conversation it comes to the same. -/
theorem evaluate_converses (n : Node) :
    ∀ id : Nat, (∀ k l status, n.descend k = some (.leaf l) → P ⟨id + k, l, status⟩) →
      Converses a b P (evaluate a now n id) (evaluate b now n id) := by
  have hbelow : ∀ {cs : List Node} {id : Nat},
      (∀ k l status, Node.descendAll cs k = some (.leaf l) → P ⟨id + (k + 1), l, status⟩) →
      ∀ k l status, Node.descendAll cs k = some (.leaf l) → P ⟨id + 1 + k, l, status⟩ := by
    intro cs id hP k l status hk
    rw [Nat.add_assoc, Nat.add_comm 1 k]
    exact hP k l status hk
  induction n with
  | leaf l =>
    intro id hP
    simp only [evaluate]
    refine settled_converses fun v => ?_
    refine ⟨[⟨id, l, (a id l v.leaves).1⟩], ⟨_, rfl, rfl⟩, ?_, ?_⟩
    · intro q hq
      rw [List.mem_singleton.mp hq]
      exact hP 0 l _ (by simp only [Node.descend])
    · rintro y z ⟨y', hy, rfl⟩
      simp only [Visit.over]
      rw [hy]
  | sequence cs ih | selector cs ih =>
    intro id hP
    simp only [evaluate]
    refine settled_converses (resumed_converses _ (evaluators_converses a b now ih (id + 1) ?_))
    exact hbelow fun k l status hk => hP (k + 1) l status (by simpa only [Node.descend] using hk)
  | decorated d c ih =>
    intro id hP
    simp only [evaluate]
    refine settled_converses (decorate_converses now (ih (id + 1) fun k l status hk => ?_) d)
    rw [Nat.add_assoc, Nat.add_comm 1 k]
    exact hP (k + 1) l status (by simpa only [Node.descend] using hk)
  | parallel threshold cs ih =>
    intro id hP
    simp only [evaluate]
    refine settled_converses (parallel_converses threshold
      (evaluators_converses a b now ih (id + 1) ?_))
    exact hbelow fun k l status hk => hP (k + 1) l status (by simpa only [Node.descend] using hk)

end Nodes

/-! ## Steps -/

namespace RunState

variable (s : RunState) (tree : BehaviorTree) (leaf : LeafEvaluator σ) (x : σ)

/-- The leaves that a step asks, with their answers, in order. -/
def exchanges : List Exchange := (s.step tree leaf.logged (x, [])).2.2.2

/-- The answers that a step gets, in order. -/
def heard : List Status := (s.exchanges tree leaf x).map (·.status)

/-- The step of the logging leaves, and what it is to any other leaves. -/
theorem step_logged (b : LeafEvaluator τ) :
    leaf.Gives (s.exchanges tree leaf x) x (s.step tree leaf.logged (x, [])).2.2.1 ∧
      (∀ q ∈ s.exchanges tree leaf x, tree.node? q.node = some (.leaf q.leaf)) ∧
      ∀ y z, b.Gives (s.exchanges tree leaf x) y z →
        s.step tree b y = ((s.step tree leaf.logged (x, [])).1,
          (s.step tree leaf.logged (x, [])).2.1, z) := by
  have hleaf : ∀ k l (status : Status), tree.root.descend k = some (.leaf l) →
      tree.node? (0 + k) = some (.leaf l) := by
    intro k l _ hk
    rw [Nat.zero_add]
    exact hk
  obtain ⟨talk, hgives, hP, hsame⟩ := evaluate_converses leaf.logged b (s.tickCount + 1)
    (P := fun q => tree.node? q.node = some (.leaf q.leaf)) tree.root 0 hleaf
    ⟨s.memory, none, (x, [])⟩
  obtain ⟨hplain, hlog⟩ := LeafEvaluator.gives_logged hgives
  have htalk : s.exchanges tree leaf x = talk := hlog
  rw [htalk]
  refine ⟨hplain, hP, fun y z hz => ?_⟩
  have h := hsame y z hz
  simp only [Visit.over] at h
  simp only [step, h]

/-- Keeping a list of the exchanges makes no difference. -/
theorem step_eq_logged :
    s.step tree leaf x = ((s.step tree leaf.logged (x, [])).1,
      (s.step tree leaf.logged (x, [])).2.1, (s.step tree leaf.logged (x, [])).2.2.1) := by
  obtain ⟨hgives, -, hsame⟩ := s.step_logged tree leaf x leaf
  exact hsame x _ hgives

/-- In a step the leaves give the answers of its exchanges. -/
theorem gives_step : leaf.Gives (s.exchanges tree leaf x) x (s.step tree leaf x).2.2 := by
  rw [step_eq_logged]
  exact (s.step_logged tree leaf x leaf).1

variable {s tree leaf x}

/-- What a step asks is a leaf of the tree, at its address. -/
theorem node?_of_mem_exchanges {q : Exchange} (hq : q ∈ s.exchanges tree leaf x) :
    tree.node? q.node = some (.leaf q.leaf) :=
  (s.step_logged tree leaf x leaf).2.1 q hq

/-- **A step is settled by its exchanges**: leaves that give the same answers to the same questions
bring the run to the same status and state. -/
theorem step_of_gives {b : LeafEvaluator τ} {y z : τ} (h : b.Gives (s.exchanges tree leaf x) y z) :
    s.step tree b y = ((s.step tree leaf x).1, (s.step tree leaf x).2.1, z) := by
  rw [step_eq_logged s tree leaf x]
  exact (s.step_logged tree leaf x b).2.2 y z h

/-- Over leaves that recite what a step heard, and perhaps more, the step is the same and the rest
is left over. -/
theorem step_reciting (s : RunState) (tree : BehaviorTree) (leaf : LeafEvaluator σ) (x : σ)
    (rest : List Status) :
    s.step tree .reciting (s.heard tree leaf x ++ rest) =
      ((s.step tree leaf x).1, (s.step tree leaf x).2.1, rest) :=
  step_of_gives (LeafEvaluator.gives_reciting _ rest)

/-- Where another step hears all that a step hears, and perhaps more, it is the same step and there
is no more. -/
theorem step_of_heard_append {b : LeafEvaluator τ} {y : τ} {rest : List Status}
    (h : s.heard tree leaf x ++ rest = s.heard tree b y) :
    rest = [] ∧ (s.step tree b y).1 = (s.step tree leaf x).1 ∧
      (s.step tree b y).2.1 = (s.step tree leaf x).2.1 := by
  -- one recital serves both steps, and the second leaves nothing over
  have hfirst := step_reciting s tree leaf x rest
  have hsecond := step_reciting s tree b y []
  rw [List.append_nil, ← h, hfirst] at hsecond
  obtain ⟨hstatus, hstate, hnil⟩ := by simpa only [Prod.mk.injEq] using hsecond
  exact ⟨hnil, hstatus.symm, hstate.symm⟩

/-- **A step is settled by what it hears**: where two steps from one state hear the same as far as
both go, they hear the same altogether and come to the same status and state. -/
theorem step_of_heard {b : LeafEvaluator τ} {y : τ}
    (h : s.heard tree leaf x <+: s.heard tree b y ∨ s.heard tree b y <+: s.heard tree leaf x) :
    s.heard tree b y = s.heard tree leaf x ∧ (s.step tree b y).1 = (s.step tree leaf x).1 ∧
      (s.step tree b y).2.1 = (s.step tree leaf x).2.1 := by
  rcases h with ⟨rest, hrest⟩ | ⟨rest, hrest⟩
  · obtain ⟨hnil, hsame⟩ := step_of_heard_append hrest
    exact ⟨by rw [← hrest, hnil, List.append_nil], hsame⟩
  · obtain ⟨hnil, hstatus, hstate⟩ := step_of_heard_append hrest
    exact ⟨by rw [← hrest, hnil, List.append_nil], hstatus.symm, hstate.symm⟩

end RunState

end Herd
