import Herd.Proofs.Run.Lockstep
import Herd.Run.Solo

/-!
# A unanimous herd runs as one actor

Where all members answer alike at each leaf, the shared tree hears what any one of them says:
both policies combine equal answers to that answer (`combine_replicate`). A step is settled by
what it hears, so the collective run goes where the run of a single actor goes whose leaves give
the same answers (`Beside.tick`), tick after tick (`Beside.nth`).

A collective run of one actor is always unanimous, and more is the same: its leaves do to the
actor and to the handler's state what the leaves of a solo run do (`gives_alone`). None of this
asks anything of the handlers; only that the outcomes name the one entity throughout is up to
handlers that keep entities.
-/

namespace Herd

universe u v

variable {σ : Type u} {τ : Type v}

/-- What answers for the leaves over many ticks: a handler for each tick, over one state, and what
happens to the state before each tick. -/
structure Driver (σ : Type u) where
  handler : Nat → ActionHandler σ
  between : Nat → σ → σ
  first : σ

namespace Driver

variable {ρ ω : Type} (d : Driver σ) (tick : ρ → ActionHandler σ → σ → ω × ρ × σ) (r : ρ)

/-- The run and the state that the `n`-th tick finds, from what the tick before left. -/
def found : Nat → ρ × σ
  | 0 => (r, d.between 0 d.first)
  | n + 1 =>
    match tick (found n).1 (d.handler n) (found n).2 with
    | (_, r, x) => (r, d.between (n + 1) x)

/-- The `n`-th tick, with the run and the state that it leaves. -/
def nth (n : Nat) : ω × ρ × σ := tick (d.found tick r n).1 (d.handler n) (d.found tick r n).2

theorem found_succ (n : Nat) : d.found tick r (n + 1) =
    ((d.nth tick r n).2.1, d.between (n + 1) (d.nth tick r n).2.2) := rfl

variable {d tick r}

/-- What is kept by each tick of two runs, with what happens to the state before the next, stands
before every tick. -/
theorem found_related {ρ' ω' : Type} {tick' : ρ' → ActionHandler σ → σ → ω' × ρ' × σ} {r' : ρ'}
    {R : ρ → ρ' → Prop} {S : σ → σ → Prop} (hr : R r r') (hfirst : S d.first d.first)
    (hbetween : ∀ n x y, S x y → S (d.between n x) (d.between n y))
    (htick : ∀ n r r' x y, R r r' → S x y →
      R (tick r (d.handler n) x).2.1 (tick' r' (d.handler n) y).2.1 ∧
        S (tick r (d.handler n) x).2.2 (tick' r' (d.handler n) y).2.2) (n : Nat) :
    R (d.found tick r n).1 (d.found tick' r' n).1 ∧
      S (d.found tick r n).2 (d.found tick' r' n).2 := by
  induction n with
  | zero => exact ⟨hr, hbetween 0 _ _ hfirst⟩
  | succ n ih =>
    obtain ⟨hnext, hleft⟩ := htick n _ _ _ _ ih.1 ih.2
    exact ⟨hnext, hbetween (n + 1) _ _ hleft⟩

end Driver

/-- Two rows of answers are the same as far as both go. -/
def SameSoFar (said heard : List Status) : Prop := heard <+: said ∨ said <+: heard

namespace Run

/-- The leaves that a tick of a solo run asks, with their answers, in order. -/
def exchanges (r : Run) (h : ActionHandler σ) (x : σ) : List Exchange :=
  r.state.exchanges r.tree (leaves h) (r.actor, x)

/-- A tick is a step over the actor's leaves. -/
theorem tick_eq (r : Run) (h : ActionHandler σ) (x : σ) :
    let step := r.state.step r.tree (leaves h) (r.actor, x)
    r.tick h x = (step.1, { r with actor := step.2.2.1, state := step.2.1 }, step.2.2.2) := rfl

end Run

/-- In a tick all of the `size` members answer alike at each leaf: first all of them the first of
`said`, then all of them the second, and so on. -/
def CollectiveTick.Unanimous (t : CollectiveTick) (size : Nat) (said : List Status) : Prop :=
  t.outcomes.map (·.status) = said.flatMap (List.replicate size)

namespace CollectiveRun

/-! ## Equal answers -/

/-- Equal answers combine to the answer that they are, under either policy. -/
theorem combine_replicate (policy : CollectivePolicy) (status : Status) {size : Nat}
    (hsize : size ≠ 0) : policy.combine (List.replicate size status) = status := by
  cases policy <;> cases status <;>
    simp [CollectivePolicy.combine, List.mem_replicate, hsize]

/-- In blocks of equal answers the shared tree hears each answer once. -/
theorem heard_of_unanimous {size : Nat} {policy : CollectivePolicy} (hsize : size ≠ 0)
    {talk : List Exchange} {blocks : List (List LeafOutcome)}
    (h : List.Forall₂ (IsBlock size policy) talk blocks) :
    ∀ {said : List Status}, blocks.flatten.map (·.status) = said.flatMap (List.replicate size) →
      talk.map (·.status) = said := by
  induction h with
  | nil =>
    intro said hsaid
    cases said with
    | nil => rfl
    | cons status rest =>
      have hnil := (List.append_eq_nil_iff.mp hsaid.symm).1
      exact absurd (List.replicate_eq_nil_iff _ |>.mp hnil) hsize
  | @cons q block talk blocks hblock _ ih =>
    intro said hsaid
    have hlength : (block.map (·.status)).length = size := by
      rw [List.length_map, hblock.length]
    rw [List.flatten_cons, List.map_append] at hsaid
    cases said with
    | nil =>
      have hnil := (List.append_eq_nil_iff.mp hsaid).1
      exact absurd (hlength ▸ congrArg List.length hnil) hsize
    | cons status rest =>
      obtain ⟨hfirst, hrest⟩ :=
        List.append_inj hsaid (hlength.trans (List.length_replicate ..).symm)
      have hstatus : q.status = status := by
        rw [hblock.shared, hfirst, combine_replicate policy status hsize]
      rw [List.map_cons, hstatus, ih hrest]

/-- What the shared tree hears in a unanimous tick. -/
theorem heard_of_tick {r : CollectiveRun} (hr : r.actors ≠ []) {h : ActionHandler σ} {x : σ}
    {said : List Status} (hsaid : (r.tick h x).1.Unanimous r.actors.length said) :
    r.state.heard r.tree (leaves h r.policy) ⟨r.actors, x, []⟩ = said := by
  obtain ⟨-, blocks, houtcomes, hblocks, -⟩ := blocks_of_tick r h x
  rw [exchanges_of_ne_nil hr] at hblocks
  rw [CollectiveTick.Unanimous, houtcomes] at hsaid
  exact heard_of_unanimous (mt List.length_eq_zero_iff.mp hr) hblocks hsaid

/-! ## A herd beside a single actor -/

/-- A collective run that has actors stands where a solo run stands. -/
structure Beside (r : CollectiveRun) (s : Run) : Prop where
  actors : r.actors ≠ []
  tree : r.tree = s.tree
  state : r.state = s.state

/-- A herd that was just started stands beside an actor that was. -/
theorem beside_start {actors : List Actor} (hactors : actors ≠ []) (tree : BehaviorTree)
    (policy : CollectivePolicy) (actor : Actor) :
    (start actors tree policy).Beside (Run.start actor tree) :=
  ⟨mt actors_start_eq_nil.mp hactors, rfl, rfl⟩

/-- **A unanimous tick**: where the single actor hears what all members say, both runs come to the
same status and stand in the same place again. -/
theorem Beside.tick {r : CollectiveRun} {s : Run} (hrs : r.Beside s) {h : ActionHandler σ} {x : σ}
    {g : ActionHandler τ} {y : τ} {said : List Status}
    (hsaid : (r.tick h x).1.Unanimous r.actors.length said)
    (hheard : SameSoFar said ((s.exchanges g y).map (·.status))) :
    (r.tick h x).1.status = some (s.tick g y).1 ∧ (r.tick h x).2.1.Beside (s.tick g y).2.1 := by
  rw [← heard_of_tick hrs.actors hsaid, Run.exchanges, ← hrs.tree, ← hrs.state] at hheard
  obtain ⟨-, hstatus, hstate⟩ := RunState.step_of_heard hheard.symm
  have hactors : (r.tick h x).2.1.actors ≠ [] := by
    rw [← List.length_pos_iff, length_tick]
    exact List.length_pos_iff.mpr hrs.actors
  rw [tick_of_ne_nil hrs.actors] at hactors ⊢
  rw [s.tick_eq, ← hrs.tree, ← hrs.state]
  exact ⟨congrArg some hstatus.symm, hactors, rfl, hstate.symm⟩

/-! ## One actor -/

/-- A collective run of one actor, and that actor's solo run. -/
structure Alone (r : CollectiveRun) (s : Run) : Prop where
  actors : r.actors = [s.actor]
  tree : r.tree = s.tree
  state : r.state = s.state

/-- Outcomes that tell of one actor what its exchanges came to, and under a handler that keeps
entities tell it of the entity `e`. -/
structure Tells (h : ActionHandler σ) (e : EntityId) (talk : List Exchange)
    (outcomes : List LeafOutcome) : Prop where
  answers : outcomes.map (fun o => (o.node, o.status)) = talk.map fun q => (q.node, q.status)
  entity : h.KeepsEntity → ∀ o ∈ outcomes, o.entity = e

/-- Under a handler that keeps entities these are the exchanges under the name of the entity. -/
theorem Tells.eq_map {h : ActionHandler σ} (hh : h.KeepsEntity) {e : EntityId} :
    ∀ {talk : List Exchange} {outcomes : List LeafOutcome}, Tells h e talk outcomes →
      outcomes = talk.map fun q => ⟨q.node, e, q.status⟩
  | [], [], _ => rfl
  | [], _ :: _, ht => nomatch ht.answers
  | _ :: _, [], ht => nomatch ht.answers
  | q :: talk, ⟨node, entity, status⟩ :: outcomes, ht => by
    obtain ⟨hfirst, hrest⟩ := List.cons.inj ht.answers
    obtain ⟨he, hentities⟩ := List.forall_mem_cons.mp (ht.entity hh)
    rw [List.map_cons, ← eq_map hh ⟨hrest, fun _ => hentities⟩]
    cases hfirst
    cases he
    rfl

/-- For one actor the leaves of a collective run do what those of a solo run do. -/
theorem gives_alone {h : ActionHandler σ} (policy : CollectivePolicy) {talk : List Exchange} :
    ∀ {a a' : Actor} {x x' : σ} (before : List LeafOutcome),
      (Run.leaves h).Gives talk (a, x) (a', x') →
      ∃ outcomes, Tells h a.entity talk outcomes ∧
        (leaves h policy).Gives talk ⟨[a], x, before⟩ ⟨[a'], x', before ++ outcomes⟩ := by
  induction talk with
  | nil =>
    rintro a a' x x' before hsame
    cases hsame
    exact ⟨[], ⟨rfl, fun _ _ ho => absurd ho List.not_mem_nil⟩,
      congrArg (Crowd.mk [a] x) (List.append_nil before)⟩
  | cons q rest ih =>
    rintro a a' x x' before ⟨⟨a₁, x₁⟩, hq, hrest⟩
    have hanswer : h.evaluate q.leaf a x = (q.status, a₁, x₁) := hq
    have hentity : h.KeepsEntity → a₁.entity = a.entity := fun hh => by
      rw [← hh.evaluate q.leaf a x, hanswer]
    have hleaf : leaves h policy q.node q.leaf ⟨[a], x, before⟩ =
        (q.status, ⟨[a₁], x₁, before ++ [⟨q.node, a₁.entity, q.status⟩]⟩) := by
      have hone : policy.combine [q.status] = q.status :=
        combine_replicate policy q.status Nat.one_ne_zero
      simp only [leaves, evaluateAll, hanswer, List.zipWith_cons_cons, List.zipWith_nil_left, hone]
    obtain ⟨outcomes, htells, hgives⟩ := ih (before ++ [⟨q.node, a₁.entity, q.status⟩]) hrest
    refine ⟨⟨q.node, a₁.entity, q.status⟩ :: outcomes, ⟨?_, fun hh => ?_⟩, _, hleaf, ?_⟩
    · rw [List.map_cons, List.map_cons, htells.answers]
    · exact List.forall_mem_cons.mpr
        ⟨hentity hh, fun o ho => (htells.entity hh o ho).trans (hentity hh)⟩
    · rwa [List.append_assoc, List.singleton_append] at hgives

/-- A tick of a collective run of one actor is the tick of the actor. -/
theorem Alone.tick {r : CollectiveRun} {s : Run} (hrs : r.Alone s) (h : ActionHandler σ) (x : σ) :
    (r.tick h x).1.status = some (s.tick h x).1 ∧
      Tells h s.actor.entity (s.exchanges h x) (r.tick h x).1.outcomes ∧
      (r.tick h x).2.1.Alone (s.tick h x).2.1 ∧ (r.tick h x).2.2 = (s.tick h x).2.2 := by
  have hactors : r.actors ≠ [] := hrs.actors ▸ List.cons_ne_nil _ _
  obtain ⟨outcomes, htells, hgives⟩ :=
    gives_alone r.policy [] (s.state.gives_step s.tree (Run.leaves h) (s.actor, x))
  have hstep := RunState.step_of_gives hgives
  rw [tick_of_ne_nil hactors, s.tick_eq, hrs.actors, hrs.tree, hrs.state, hstep]
  exact ⟨rfl, htells, ⟨rfl, rfl, rfl⟩, rfl⟩

/-! ## Many ticks -/

section Ticks

variable {r : CollectiveRun} {s : Run} (d : Driver σ) (e : Driver τ) (said : Nat → List Status)

/-- Up to the `n`-th tick the members answer alike, and the single actor hears what they say. -/
def InUnison (r : CollectiveRun) (s : Run) (n : Nat) : Prop :=
  ∀ i ≤ n, (d.nth tick r i).1.Unanimous r.members.length (said i) ∧
    SameSoFar (said i) (((e.found Run.tick s i).1.exchanges (e.handler i)
      (e.found Run.tick s i).2).map (·.status))

variable {d e said}

/-- No tick makes an actor come or go. -/
theorem length_found (r : CollectiveRun) (n : Nat) :
    (d.found tick r n).1.actors.length = r.actors.length := by
  induction n with
  | zero => rfl
  | succ n ih =>
    rw [d.found_succ, ← ih]
    exact length_tick _ _ _

/-- Ticks whose handlers keep entities leave the members as they are. -/
theorem members_found (r : CollectiveRun) {n : Nat} (hd : ∀ i < n, (d.handler i).KeepsEntity) :
    (d.found tick r n).1.members = r.members := by
  induction n with
  | zero => rfl
  | succ n ih =>
    rw [d.found_succ, ← ih fun i hi => hd i (Nat.lt_succ_of_lt hi)]
    exact members_tick _ (hd n (Nat.lt_succ_self n)) _

/-- A herd in unison stays beside the actor, tick by tick, and answers the same. -/
theorem Beside.nth (hrs : r.Beside s) : ∀ {n : Nat}, InUnison d e said r s n →
    (d.nth CollectiveRun.tick r n).1.status = some (e.nth Run.tick s n).1 ∧
      (d.nth CollectiveRun.tick r n).2.1.Beside (e.nth Run.tick s n).2.1 := by
  have hstep : ∀ {n : Nat}, InUnison d e said r s n →
      (d.found CollectiveRun.tick r n).1.Beside (e.found Run.tick s n).1 →
      (d.nth CollectiveRun.tick r n).1.status = some (e.nth Run.tick s n).1 ∧
        (d.nth CollectiveRun.tick r n).2.1.Beside (e.nth Run.tick s n).2.1 := by
    intro n h hfound
    obtain ⟨hsaid, hheard⟩ := h n (Nat.le_refl n)
    have hsize : r.members.length = (d.found CollectiveRun.tick r n).1.actors.length :=
      List.length_map _ |>.trans (length_found r n).symm
    rw [hsize] at hsaid
    exact hfound.tick hsaid hheard
  intro n
  induction n with
  | zero => exact fun h => hstep h hrs
  | succ n ih => exact fun h => hstep h (ih fun i hi => h i (Nat.le_succ_of_le hi)).2

/-- A herd of one is found as the actor is, whatever happens between ticks. -/
theorem Alone.found (hrs : r.Alone s) (n : Nat) :
    (d.found CollectiveRun.tick r n).1.Alone (d.found Run.tick s n).1 ∧
      (d.found CollectiveRun.tick r n).2 = (d.found Run.tick s n).2 := by
  refine Driver.found_related hrs rfl (fun n x y => congrArg (d.between n)) ?_ n
  rintro n r s x _ hrs rfl
  exact (hrs.tick (d.handler n) x).2.2

end Ticks

/-- **A unanimous herd runs as one actor.** Where all members of a collective run answer alike at
each leaf, and the leaves of some actor's solo run over the same tree get these answers, both come
to the same status and to the same state in every tick. A collective run of one actor is the solo
run of that actor in every tick: the actor with its blackboard, and what is done to the state of the
handlers, are the same too, and the outcomes are the actor's exchanges, at the same nodes with the
same answers. Where the handlers keep entities, they are under the name of the one entity. -/
theorem unanimous_as_one {actors : List Actor} (hactors : actors ≠ []) (tree : BehaviorTree)
    (policy : CollectivePolicy) (d : Driver σ) :
    let herd := start actors tree policy
    (∀ (actor : Actor) (e : Driver τ) (said : Nat → List Status) (n : Nat),
      InUnison d e said herd (Run.start actor tree) n →
      (d.nth tick herd n).1.status = some (e.nth Run.tick (Run.start actor tree) n).1 ∧
      (d.nth tick herd n).2.1.state = (e.nth Run.tick (Run.start actor tree) n).2.1.state) ∧
    ∀ actor : Actor, distinct actors = [actor] → ∀ n : Nat,
      let solo := d.found Run.tick (Run.start actor tree) n
      let after := d.nth Run.tick (Run.start actor tree) n
      let talk := solo.1.exchanges (d.handler n) solo.2
      (d.nth tick herd n).1.status = some after.1 ∧
      (d.nth tick herd n).1.outcomes.map (fun o => (o.node, o.status)) =
        talk.map (fun q => (q.node, q.status)) ∧
      ((∀ i ≤ n, (d.handler i).KeepsEntity) → (d.nth tick herd n).1 =
        ⟨some after.1, talk.map fun q => ⟨q.node, actor.entity, q.status⟩⟩) ∧
      (d.nth tick herd n).2.1.state = after.2.1.state ∧
      (d.nth tick herd n).2.1.actors = [after.2.1.actor] ∧
      (d.nth tick herd n).2.2 = after.2.2 := by
  intro herd
  constructor
  · intro actor e said n h
    obtain ⟨hstatus, hbeside⟩ := (beside_start hactors tree policy actor).nth h
    exact ⟨hstatus, hbeside.state⟩
  · intro actor hactor n solo after talk
    have hstart : herd.Alone (Run.start actor tree) := ⟨hactor, rfl, rfl⟩
    obtain ⟨hfound, hstate⟩ := hstart.found (d := d) n
    obtain ⟨hstatus, htells, hnext, hleft⟩ := hfound.tick (d.handler n) solo.2
    rw [Driver.nth, hstate]
    refine ⟨hstatus, htells.answers, fun hd => ?_, hnext.state, hnext.actors, hleft⟩
    have hentity : solo.1.actor.entity = actor.entity := by
      have hmembers := members_found (d := d) herd fun i hi => hd i (Nat.le_of_lt hi)
      rw [members, hfound.actors, members, hstart.actors] at hmembers
      exact (List.cons.inj hmembers).1
    have houtcomes := htells.eq_map (hd n (Nat.le_refl n))
    rw [hentity] at houtcomes
    exact congrArg₂ CollectiveTick.mk hstatus houtcomes

/-- Two deer that are of one mind at every leaf, beside a third that is told what they say; and a
deer by itself, which leaves a note on its blackboard. -/
theorem twoDeer_as_one :
    let tree : BehaviorTree := ⟨⟨none, "patrol"⟩,
      .sequence [.decorated .inverter (.leaf (.condition "seen")), .leaf (.action "walk")]⟩
    let h : ActionHandler Nat := ⟨fun a _ x => (if x < 4 then .running else .success,
      { a with blackboard := a.blackboard.insert "steps" "many" }, x + 1),
      fun _ _ x => (false, x + 1), fun _ _ x => (false, x)⟩
    let d : Driver Nat := ⟨fun _ => h, fun _ x => x, 0⟩
    let told : ActionHandler (List Status) :=
      ⟨fun a _ x => (x.headD .failure, a, x.tail),
        fun _ _ x => (x.headD .failure = .success, x.tail), fun _ _ x => (false, x)⟩
    let e : Driver (List Status) := ⟨fun _ => told, fun _ x => x, [.failure, .running, .success]⟩
    let pair := start [.ofEntity ⟨1⟩, .ofEntity ⟨2⟩] tree .any
    let one := start [.ofEntity ⟨1⟩, .ofEntity ⟨1⟩] tree .all
    (d.nth tick pair 1).1.status = some (e.nth Run.tick (Run.start (.ofEntity ⟨3⟩) tree) 1).1 ∧
      (d.nth tick pair 1).1.status = some .success ∧
      (d.nth tick one 0).1 = ⟨some .running, [⟨2, ⟨1⟩, .failure⟩, ⟨3, ⟨1⟩, .running⟩]⟩ ∧
      (d.nth tick one 0).2.1.actors = [⟨⟨1⟩, Table.empty.insert "steps" "many"⟩] ∧
      (d.nth tick one 0).2.2 = 2 := by
  intro tree h d told e pair one
  have hunison : InUnison d e (fun i => if i = 0 then [.failure, .running] else [.success]) pair
      (Run.start (.ofEntity ⟨3⟩) tree) 1 := by
    intro i hi
    match i, hi with
    | 0, _ => exact ⟨by unfold CollectiveTick.Unanimous; decide, .inl (by decide)⟩
    | 1, _ => exact ⟨by unfold CollectiveTick.Unanimous; decide, .inl (by decide)⟩
  have htwo : [Actor.ofEntity ⟨1⟩, .ofEntity ⟨2⟩] ≠ [] := List.cons_ne_nil _ _
  have hone : [Actor.ofEntity ⟨1⟩, .ofEntity ⟨1⟩] ≠ [] := List.cons_ne_nil _ _
  obtain ⟨hstatus, -⟩ := (unanimous_as_one htwo tree .any d).1 (.ofEntity ⟨3⟩) e _ 1 hunison
  obtain ⟨-, -, hticked, -, hactors, hleft⟩ :=
    (@unanimous_as_one Nat Nat _ hone tree .all d).2 (.ofEntity ⟨1⟩) rfl 0
  have hkeeps : ∀ i ≤ 0, (d.handler i).KeepsEntity := fun _ _ _ _ _ => rfl
  exact ⟨hstatus, by decide, (hticked hkeeps).trans (by decide), hactors.trans (by decide),
    hleft.trans (by decide)⟩

end CollectiveRun

end Herd
