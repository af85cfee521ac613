import Mathlib.Algebra.Group.Action.Defs
import Mathlib.Algebra.Order.BigOperators.Group.List
import Mathlib.Algebra.Order.Ring.Nat
import Herd.Proofs.Run.Conversation
import Herd.Proofs.Run.Passage

/-!
# The leaves of a tick, in order

Which leaves a tick asks depends on the notes of the run and on what the leaves answer. What does
not is the order: a composite runs each of its children once at most and in turn, and a decorator
runs its child one time after another, as often as it is to be repeated. The lists of addresses that
this allows are the routes of a node (`Node.routes`), and every evaluation takes one of them,
whatever notes it starts from (`evaluate_takes`).

So a tick asks a leaf as often at most as the repetitions around it allow together
(`Node.count_le_of_routes`), and without repetitions it goes through the tree from left to right
(`Node.pairwise_of_routes`).
-/

namespace Herd

universe u

variable {σ : Type u}

/-! ## Routes -/

/-- The lists of addresses in which leaves may be asked. -/
abbrev Routes := List NodeId → Prop

namespace Routes

/-- One route after another, where any may be left out. -/
def inTurn : List Routes → Routes
  | [], r => r = []
  | R :: Rs, r => ∃ s t, r = s ++ t ∧ (s = [] ∨ R s) ∧ inTurn Rs t

/-- Up to `n` routes, one after another. -/
def upTo (n : Nat) (R : Routes) : Routes := fun r =>
  ∃ parts : List (List NodeId), parts.length ≤ n ∧ (∀ p ∈ parts, R p) ∧ r = parts.flatten

variable {R : Routes} {Rs : List Routes} {r t : List NodeId} {m n : Nat}

/-- Routes in turn may all be skipped. -/
theorem inTurn_nil : ∀ Rs : List Routes, inTurn Rs []
  | [] => rfl
  | _ :: Rs => ⟨[], [], rfl, .inl rfl, inTurn_nil Rs⟩

theorem inTurn_skip (h : inTurn Rs r) : inTurn (R :: Rs) r := ⟨[], r, rfl, .inl rfl, h⟩

theorem inTurn_of_drop : ∀ {Rs : List Routes} {k : Nat}, inTurn (Rs.drop k) r → inTurn Rs r
  | _, 0, h => h
  | [], _ + 1, h => h
  | _ :: _, _ + 1, h => inTurn_skip (inTurn_of_drop h)

theorem upTo_nil : upTo n R [] :=
  ⟨[], Nat.zero_le n, fun _ hp => absurd hp List.not_mem_nil, rfl⟩

theorem upTo_cons (hr : R r) (ht : upTo n R t) : upTo (n + 1) R (r ++ t) := by
  obtain ⟨parts, hlength, hparts, rfl⟩ := ht
  exact ⟨r :: parts, Nat.succ_le_succ hlength, List.forall_mem_cons.mpr ⟨hr, hparts⟩, rfl⟩

theorem upTo_of_route (hr : R r) : upTo (n + 1) R r := by
  have hparts := upTo_cons hr (upTo_nil : upTo n R [])
  rwa [List.append_nil] at hparts

theorem of_upTo_one (hr : upTo 1 R r) : r = [] ∨ R r := by
  obtain ⟨parts, hlength, hparts, rfl⟩ := hr
  match parts, hlength with
  | [], _ => exact .inl rfl
  | [p], _ => exact .inr (List.flatten_singleton ▸ hparts p List.mem_cons_self)

theorem upTo_mono (h : m ≤ n) (hr : upTo m R r) : upTo n R r := by
  obtain ⟨parts, hlength, hparts, hr⟩ := hr
  exact ⟨parts, Nat.le_trans hlength h, hparts, hr⟩

/-- What holds all along each route. -/
theorem forall_of_upTo {P : NodeId → Prop} (hR : ∀ {p}, R p → ∀ a ∈ p, P a) (hr : upTo n R r) :
    ∀ a ∈ r, P a := by
  obtain ⟨parts, -, hparts, rfl⟩ := hr
  intro a ha
  obtain ⟨p, hp, ha⟩ := List.mem_flatten.mp ha
  exact hR (hparts p hp) a ha

/-- What comes up to `b` times on each route. -/
theorem count_le_of_upTo {a b : Nat} (hR : ∀ {p : List Nat}, R p → p.count a ≤ b)
    (hr : upTo n R r) : r.count a ≤ n * b := by
  obtain ⟨parts, hlength, hparts, rfl⟩ := hr
  have heach : ∀ m ∈ parts.map (List.count a), m ≤ b := by
    intro m hm
    obtain ⟨p, hp, rfl⟩ := List.mem_map.mp hm
    exact hR (hparts p hp)
  have hsum := List.sum_le_card_nsmul _ b heach
  rw [List.length_map, smul_eq_mul] at hsum
  rw [List.count_flatten]
  exact Nat.le_trans hsum (Nat.mul_le_mul_right b hlength)

end Routes

/-- How often the child may run in one tick. -/
def Decorator.rounds : Decorator → Nat
  | repeated count => count
  | _ => 1

namespace Node

mutual

/-- The orders in which one evaluation of the node at `id` may ask the leaves of its subtree. -/
def routes : Node → NodeId → Routes
  | leaf _, id => fun r => r = [id]
  | sequence cs, id => .inTurn (routesAll cs (id + 1))
  | selector cs, id => .inTurn (routesAll cs (id + 1))
  | decorated d c, id => .upTo d.rounds (c.routes (id + 1))
  | parallel _ cs, id => .inTurn (routesAll cs (id + 1))

/-- The routes of siblings of which the first is at `id`. -/
def routesAll : List Node → NodeId → List Routes
  | [], _ => []
  | c :: cs, id => c.routes id :: routesAll cs (id + c.size)

end

end Node

/-! ## Evaluations take routes -/

/-- The addresses of the leaves that were asked so far. -/
def Visit.asked (v : Visit (σ × List Exchange)) : List NodeId := v.leaves.2.map (·.node)

/-- From `v` to `w` leaves are asked along one of the routes. -/
def Visit.Asks (R : Routes) (v w : Visit (σ × List Exchange)) : Prop :=
  ∃ r, R r ∧ w.asked = v.asked ++ r

/-- An evaluator that asks leaves along one of the routes, whatever it starts from. -/
abbrev Takes (R : Routes) (f : Evaluator (σ × List Exchange)) : Prop := Moves (Visit.Asks R) f

section Evaluators

variable {R : Routes} {Rs : List Routes} {f : Evaluator (σ × List Exchange)}
  {fs : List (Evaluator (σ × List Exchange))} (id : NodeId)

/-- Children in order are taken in turn. -/
theorem ordered_takes (goOn : Status) (h : List.Forall₂ Takes Rs fs) :
    ∀ index : Nat, Takes (.inTurn Rs) (ordered goOn id index fs) := by
  induction h with
  | nil => exact fun index v => ⟨[], rfl, (List.append_nil _).symm⟩
  | @cons R f Rs fs hf _ ih =>
    intro index v
    obtain ⟨r, hr, hasked⟩ := hf v
    -- where the children end here, the others are left out
    have hlast : Visit.Asks (.inTurn (R :: Rs)) v (f v).2 :=
      ⟨r, ⟨r, [], (List.append_nil r).symm, .inr hr, Routes.inTurn_nil Rs⟩, hasked⟩
    simp only [ordered]
    split
    · obtain ⟨t, ht, hrest⟩ := ih (index + 1) (f v).2
      exact ⟨r ++ t, ⟨r, t, rfl, .inr hr, ht⟩, by rw [hrest, hasked, List.append_assoc]⟩
    · split
      · exact hlast
      · exact hlast

theorem resumed_takes (goOn : Status) (h : List.Forall₂ Takes Rs fs) :
    Takes (.inTurn Rs) (resumed goOn id fs) := by
  intro v
  obtain ⟨r, hr, hasked⟩ := ordered_takes id goOn (List.forall₂_drop (v.cursorAt id) h)
    (v.cursorAt id) v
  exact ⟨r, Routes.inTurn_of_drop hr, hasked⟩

/-- The children of a parallel node that are not done are asked in turn. -/
theorem fillSlots_asks (h : List.Forall₂ Takes Rs fs) :
    ∀ (slots : List (Option Status)) (v : Visit (σ × List Exchange)),
      Visit.Asks (.inTurn Rs) v (fillSlots slots fs v).2 := by
  -- A child whose slot is filled is left out; the others run as in `ordered`, whatever they answer.
  induction h with
  | nil =>
    intro slots v
    rcases slots with _ | ⟨_ | _, _⟩ <;> exact ⟨[], rfl, (List.append_nil _).symm⟩
  | @cons R f Rs fs hf _ ih =>
    intro slots v
    rcases slots with _ | ⟨_ | done, slots⟩
    · exact ⟨[], Routes.inTurn_nil _, (List.append_nil _).symm⟩
    · obtain ⟨r, hr, hasked⟩ := hf v
      obtain ⟨t, ht, hrest⟩ := ih slots (f v).2
      refine ⟨r ++ t, ⟨r, t, rfl, .inr hr, ht⟩, ?_⟩
      rw [← List.append_assoc, ← hasked]
      exact hrest
    · obtain ⟨t, ht, hrest⟩ := ih slots v
      exact ⟨t, Routes.inTurn_skip ht, hrest⟩

theorem parallel_takes (threshold : Nat) (h : List.Forall₂ Takes Rs fs) :
    Takes (.inTurn Rs) (parallel threshold id fs) := by
  intro v
  have hfill := fillSlots_asks h (v.slotsAt id fs.length) (v.forget id)
  simp only [parallel]
  split
  · exact hfill
  · exact hfill

/-- A repetition takes the route of its child up to as often as is left. -/
theorem repeatChild_takes (hf : Takes R f) (remaining : Nat) :
    ∀ done : Nat, Takes (.upTo remaining R) (repeatChild id f remaining done) := by
  induction remaining with
  | zero => exact fun done v => ⟨[], Routes.upTo_nil, (List.append_nil _).symm⟩
  | succ remaining ih =>
    intro done v
    obtain ⟨r, hr, hasked⟩ := hf v
    simp only [repeatChild]
    split
    · next w hw =>
      rw [hw] at hasked
      obtain ⟨t, ht, hrest⟩ := ih (done + 1) w
      exact ⟨r ++ t, Routes.upTo_cons hr ht, by rw [hrest, hasked, List.append_assoc]⟩
    · next w hw =>
      rw [hw] at hasked
      exact ⟨r, Routes.upTo_of_route hr, hasked⟩
    · next w hw =>
      rw [hw] at hasked
      exact ⟨r, Routes.upTo_of_route hr, hasked⟩

/-- A decorator takes the route of its child up to as often as it allows. -/
theorem decorate_takes (now : Nat) (hf : Takes R f) (d : Decorator) :
    Takes (.upTo d.rounds R) (decorate now id f d) := by
  intro v
  obtain ⟨r, hr, hasked⟩ := hf v
  have honce : ∀ {w : Visit (σ × List Exchange)}, w.asked = (f v).2.asked →
      Visit.Asks (.upTo 1 R) v w :=
    fun hw => ⟨r, Routes.upTo_of_route hr, hw.trans hasked⟩
  cases d with
  | inverter => exact honce rfl
  | repeated count =>
    -- what the child has done in earlier ticks is not done again
    obtain ⟨t, ht, hrest⟩ :=
      repeatChild_takes id hf (count - v.iterationsAt id) (v.iterationsAt id) v
    exact ⟨t, Routes.upTo_mono (Nat.sub_le _ _) ht, hrest⟩
  | untilFail =>
    simp only [decorate]
    split
    · next w hw => exact honce (by rw [hw])
    · next status w _ hw => exact honce (by rw [hw])
  | timeout ticks =>
    simp only [decorate]
    split
    · exact ⟨[], Routes.upTo_nil, (List.append_nil _).symm⟩
    · split
      · next w hw => exact honce (by rw [hw]; rfl)
      · next status w _ hw => exact honce (by rw [hw])

/-- To take leave no leaf is asked. -/
theorem settled_takes {size : Nat} (hf : Takes R f) : Takes R (settled id size f) := by
  intro v
  obtain ⟨r, hr, hasked⟩ := hf v
  refine ⟨r, hr, ?_⟩
  simp only [settled, Visit.settle]
  split
  · exact hasked
  · exact hasked

end Evaluators

section Nodes

variable (leaf : LeafEvaluator σ) (now : Nat)

theorem evaluators_takes {cs : List Node}
    (hcs : ∀ c ∈ cs, ∀ id : NodeId, Takes (c.routes id) (evaluate leaf.logged now c id)) :
    ∀ first : NodeId,
      List.Forall₂ Takes (Node.routesAll cs first) (evaluators leaf.logged now cs first) := by
  induction cs with
  | nil => exact fun first => .nil
  | cons c cs ih =>
    intro first
    simp only [Node.routesAll, evaluators]
    exact .cons (hcs c List.mem_cons_self first)
      (ih (fun d hd => hcs d (List.mem_cons_of_mem _ hd)) _)

/-- **An evaluation takes a route of its node**, from whatever notes and with whatever answers. -/
theorem evaluate_takes (n : Node) :
    ∀ id : NodeId, Takes (n.routes id) (evaluate leaf.logged now n id) := by
  -- For all notes at once: a child may be met with any that the evaluation so far has left.
  induction n with
  | leaf l =>
    intro id
    simp only [evaluate, Node.routes]
    refine settled_takes id fun v => ⟨[id], rfl, ?_⟩
    simp only [Visit.asked, LeafEvaluator.logged, List.map_append, List.map_cons, List.map_nil]
  | sequence cs ih =>
    intro id
    simp only [evaluate, Node.routes]
    exact settled_takes id (resumed_takes id _ (evaluators_takes leaf now ih (id + 1)))
  | selector cs ih =>
    intro id
    simp only [evaluate, Node.routes]
    exact settled_takes id (resumed_takes id _ (evaluators_takes leaf now ih (id + 1)))
  | decorated d c ih =>
    intro id
    simp only [evaluate, Node.routes]
    exact settled_takes id (decorate_takes id now (ih (id + 1)) d)
  | parallel threshold cs ih =>
    intro id
    simp only [evaluate, Node.routes]
    exact settled_takes id (parallel_takes id threshold (evaluators_takes leaf now ih (id + 1)))

end Nodes

namespace Node

/-! ## A route stays within the subtree -/

/-- A route through siblings stays within their addresses. -/
theorem within_of_routesAll {cs : List Node}
    (hcs : ∀ c ∈ cs, ∀ {id : Nat} {r : List Nat}, c.routes id r →
      ∀ a ∈ r, id ≤ a ∧ a < id + c.size) :
    ∀ {first : Nat} {r : List Nat}, Routes.inTurn (routesAll cs first) r →
      ∀ a ∈ r, first ≤ a ∧ a < first + sizeAll cs := by
  induction cs with
  | nil =>
    rintro first r rfl a ha
    cases ha
  | cons c cs ih =>
    rintro first _ ⟨s, t, rfl, hs, ht⟩ a ha
    rw [sizeAll]
    rcases List.mem_append.mp ha with ha | ha
    · rcases hs with rfl | hs
      · cases ha
      · have hc := hcs c List.mem_cons_self hs a ha
        omega
    · have hrest := ih (fun d hd => hcs d (List.mem_cons_of_mem _ hd)) ht a ha
      omega

/-- **A route stays within the subtree.** -/
theorem within_of_routes (n : Node) :
    ∀ {id : Nat} {r : List Nat}, n.routes id r → ∀ a ∈ r, id ≤ a ∧ a < id + n.size := by
  induction n with
  | leaf l =>
    intro id r hr a ha
    simp only [routes] at hr
    rw [hr, List.mem_singleton] at ha
    rw [size]
    omega
  | sequence cs ih | selector cs ih | parallel threshold cs ih =>
    intro id r hr a ha
    simp only [routes] at hr
    have hbelow := within_of_routesAll ih hr a ha
    rw [size]
    omega
  | decorated d c ih =>
    intro id r hr a ha
    simp only [routes] at hr
    have hbelow := Routes.forall_of_upTo ih hr a ha
    rw [size]
    omega

/-- A route of siblings lies behind what is before them. -/
theorem le_of_routesAll {cs : List Node} {first : Nat} {r : List Nat}
    (hr : Routes.inTurn (routesAll cs first) r) : ∀ a ∈ r, first ≤ a :=
  fun a ha => (within_of_routesAll (fun c _ => c.within_of_routes) hr a ha).1

/-! ## How often a leaf is asked -/

mutual

/-- The counts of the repetitions around the node `i` places after this one in pre-order. -/
def repetitions : Node → Nat → List Nat
  | _, 0 => []
  | leaf _, _ + 1 => []
  | sequence cs, i + 1 => repetitionsAll cs i
  | selector cs, i + 1 => repetitionsAll cs i
  | decorated (.repeated count) c, i + 1 => count :: c.repetitions i
  | decorated _ c, i + 1 => c.repetitions i
  | parallel _ cs, i + 1 => repetitionsAll cs i

/-- The counts of the repetitions around the node `i` places after the first sibling. -/
def repetitionsAll : List Node → Nat → List Nat
  | [], _ => []
  | c :: cs, i => if i < c.size then c.repetitions i else repetitionsAll cs (i - c.size)

end

/-- Below a decorator a leaf may be asked as many times more as it has rounds. -/
theorem prod_repetitions_decorated (d : Decorator) (c : Node) (k : Nat) :
    ((decorated d c).repetitions (k + 1)).prod = d.rounds * (c.repetitions k).prod := by
  cases d with
  | repeated count => rw [repetitions, List.prod_cons, Decorator.rounds]
  | inverter | untilFail | timeout ticks =>
    simp only [repetitions, Decorator.rounds, Nat.one_mul]

/-- No repetition is around the root of a subtree, and a route comes to it once at most. -/
theorem count_root_le (n : Node) {id : Nat} {r : List Nat} (hr : n.routes id r) :
    r.count id ≤ (n.repetitions 0).prod := by
  have hone : (n.repetitions 0).prod = 1 := by
    rw [repetitions, List.prod_nil]
  have hbelow : (∀ a ∈ r, id + 1 ≤ a) → r.count id ≤ 1 := by
    intro h
    rw [List.count_eq_zero.mpr fun ha => Nat.not_succ_le_self id (h id ha)]
    exact Nat.zero_le 1
  rw [hone]
  cases n with
  | leaf l =>
    simp only [routes] at hr
    rw [hr]
    exact List.count_le_length
  | sequence cs | selector cs | parallel threshold cs =>
    simp only [routes] at hr
    exact hbelow (le_of_routesAll hr)
  | decorated d c =>
    simp only [routes] at hr
    exact hbelow (Routes.forall_of_upTo (fun hp a ha => (c.within_of_routes hp a ha).1) hr)

/-- Of siblings a route asks a leaf as often as the one allows that it is in. -/
theorem count_le_of_routesAll {cs : List Node}
    (hcs : ∀ c ∈ cs, ∀ {id k : Nat} {r : List Nat}, c.routes id r →
      r.count (id + k) ≤ (c.repetitions k).prod) :
    ∀ {first k : Nat} {r : List Nat}, Routes.inTurn (routesAll cs first) r →
      r.count (first + k) ≤ (repetitionsAll cs k).prod := by
  induction cs with
  | nil =>
    rintro first k r rfl
    exact Nat.zero_le _
  | cons c cs ih =>
    rintro first k _ ⟨s, t, rfl, hs, ht⟩
    rw [List.count_append, repetitionsAll]
    by_cases hk : k < c.size
    · -- the siblings behind are not asked for it
      have hbehind : t.count (first + k) = 0 := by
        refine List.count_eq_zero.mpr fun ha => ?_
        have hlo := le_of_routesAll ht _ ha
        omega
      rw [if_pos hk, hbehind, Nat.add_zero]
      rcases hs with rfl | hs
      · exact Nat.zero_le _
      · exact hcs c List.mem_cons_self hs
    · -- this one is not
      have hbefore : s.count (first + k) = 0 := by
        refine List.count_eq_zero.mpr fun ha => ?_
        rcases hs with rfl | hs
        · cases ha
        · have hhi := (c.within_of_routes hs _ ha).2
          omega
      have hindex : first + k = first + c.size + (k - c.size) := by omega
      rw [if_neg hk, hbefore, Nat.zero_add, hindex]
      exact ih (fun d hd => hcs d (List.mem_cons_of_mem _ hd)) ht

/-- **A route comes to a leaf as often at most** as the repetitions around it allow together. -/
theorem count_le_of_routes (n : Node) : ∀ {id k : Nat} {r : List Nat}, n.routes id r →
    r.count (id + k) ≤ (n.repetitions k).prod := by
  -- A decorator multiplies the bound below it; siblings do not add up, since their places differ.
  induction n with
  | leaf l =>
    intro id k r hr
    cases k with
    | zero => exact count_root_le _ hr
    | succ k =>
      simp only [routes] at hr
      rw [hr, repetitions, List.prod_nil]
      exact List.count_le_length
  | sequence cs ih | selector cs ih | parallel threshold cs ih =>
    intro id k r hr
    cases k with
    | zero => exact count_root_le _ hr
    | succ k =>
      simp only [routes] at hr
      have hbelow := count_le_of_routesAll ih (k := k) hr
      rwa [Nat.add_assoc, Nat.add_comm 1 k] at hbelow
  | decorated d c ih =>
    intro id k r hr
    cases k with
    | zero => exact count_root_le _ hr
    | succ k =>
      simp only [routes] at hr
      rw [prod_repetitions_decorated]
      refine Routes.count_le_of_upTo (fun {p} hp => ?_) hr
      have hround := ih (k := k) hp
      rwa [Nat.add_assoc, Nat.add_comm 1 k] at hround

/-! ## From left to right -/

/-- There is no repetition in the subtree. -/
def Unrepeated (n : Node) : Prop :=
  ∀ k count c, n.descend k ≠ some (.decorated (.repeated count) c)

/-- Without repetitions a route through siblings goes from left to right. -/
theorem pairwise_of_routesAll {cs : List Node}
    (hcs : ∀ c ∈ cs, c.Unrepeated → ∀ {id : Nat} {r : List Nat}, c.routes id r →
      r.Pairwise (· < ·))
    (h : ∀ k count c, descendAll cs k ≠ some (.decorated (.repeated count) c)) :
    ∀ {first : Nat} {r : List Nat}, Routes.inTurn (routesAll cs first) r → r.Pairwise (· < ·) := by
  induction cs with
  | nil =>
    rintro first r rfl
    exact .nil
  | cons c cs ih =>
    rintro first _ ⟨s, t, rfl, hs, ht⟩
    have hc : c.Unrepeated := by
      intro k count d hk
      refine h k count d ?_
      rwa [descendAll_of_lt cs (lt_size_of_descend hk)]
    have hrest : ∀ k count d, descendAll cs k ≠ some (.decorated (.repeated count) d) := by
      intro k count d hk
      refine h (c.size + k) count d ?_
      rwa [descendAll_of_le cs (Nat.le_add_right _ _), Nat.add_sub_cancel_left]
    refine List.pairwise_append.mpr ⟨?_,
      ih (fun d hd => hcs d (List.mem_cons_of_mem _ hd)) hrest ht, fun a ha b hb => ?_⟩
    · rcases hs with rfl | hs
      · exact .nil
      · exact hcs c List.mem_cons_self hc hs
    · rcases hs with rfl | hs
      · cases ha
      · exact Nat.lt_of_lt_of_le (c.within_of_routes hs a ha).2 (le_of_routesAll ht b hb)

/-- **Without repetitions a route goes from left to right.** -/
theorem pairwise_of_routes (n : Node) : n.Unrepeated → ∀ {id : Nat} {r : List Nat},
    n.routes id r → r.Pairwise (· < ·) := by
  induction n with
  | leaf l =>
    intro _ id r hr
    simp only [routes] at hr
    rw [hr]
    exact List.pairwise_singleton _ _
  | sequence cs ih | selector cs ih | parallel threshold cs ih =>
    intro h id r hr
    simp only [routes] at hr
    refine pairwise_of_routesAll ih (fun k count c hk => h (k + 1) count c ?_) hr
    simpa only [descend] using hk
  | decorated d c ih =>
    intro h id r hr
    simp only [routes] at hr
    have hc : c.Unrepeated := by
      intro k count e hk
      refine h (k + 1) count e ?_
      simpa only [descend] using hk
    have hone : d.rounds = 1 := by
      cases d with
      | repeated count => exact absurd (descend_zero _) (h 0 count c)
      | inverter | untilFail | timeout ticks => rfl
    rw [hone] at hr
    rcases Routes.of_upTo_one hr with rfl | hr
    · exact .nil
    · exact ih hc hr

end Node

/-! ## Ticks -/

namespace RunState

variable (s : RunState) (tree : BehaviorTree) (leaf : LeafEvaluator σ) (x : σ)

/-- A tick takes a route of the tree. -/
theorem routes_exchanges : tree.root.routes 0 ((s.exchanges tree leaf x).map (·.node)) := by
  obtain ⟨r, hr, hasked⟩ :=
    evaluate_takes leaf (s.tickCount + 1) tree.root 0 ⟨s.memory, none, (x, [])⟩
  have hexchanges : (s.exchanges tree leaf x).map (·.node) = r := hasked
  rwa [hexchanges]

/-- **No leaf acts more often in a tick than the tree allows.** In one step from any state, whatever
the leaves answer, a leaf is asked as often at most as the product of the counts of the repetitions
around it. In a tree without repetitions the leaves of a step are asked from left to right, each at
a greater address than the one before. -/
theorem leaves_as_allowed :
    (∀ id, ((s.exchanges tree leaf x).map (·.node)).count id ≤
      (tree.root.repetitions id).prod) ∧
    ((∀ id count c, tree.node? id ≠ some (.decorated (.repeated count) c)) →
      ((s.exchanges tree leaf x).map (·.node)).Pairwise (· < ·)) := by
  have hroute := s.routes_exchanges tree leaf x
  refine ⟨fun id => ?_, fun h => tree.root.pairwise_of_routes h hroute⟩
  have hcount := tree.root.count_le_of_routes (k := id) hroute
  rwa [Nat.zero_add] at hcount

/-- A hunt that leaps up to six times in a tick, and does so; without the repetitions it goes
through its leaves once, in order. -/
theorem hunt_as_allowed :
    let leaf : LeafEvaluator Unit := fun _ _ x => (.success, x)
    let act (name : String) : Node := .leaf (.action name)
    let leaps (d e : Decorator) : BehaviorTree :=
      ⟨⟨none, "hunt"⟩, .decorated d (.sequence [act "stalk", .decorated e (act "leap")])⟩
    let asked (tree : BehaviorTree) := (fresh.exchanges tree leaf ()).map (·.node)
    (leaps (.repeated 2) (.repeated 3)).root.repetitions 4 = [2, 3] ∧
      (asked (leaps (.repeated 2) (.repeated 3))).count 4 = 6 ∧
      asked (leaps .inverter .untilFail) = [2, 4] ∧
      (asked (leaps .inverter .untilFail)).Pairwise (· < ·) := by
  intro leaf act leaps asked
  refine ⟨by decide, by decide, by decide, (leaves_as_allowed fresh _ leaf ()).2 fun id => ?_⟩
  match id with
  | 0 | 1 | 2 | 3 | 4 => nofun
  | n + 5 => nofun

end RunState

end Herd
