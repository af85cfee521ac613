import Mathlib.Data.List.Induction
import Herd.Proofs.Run.Conversation
import Herd.Run.Collective

/-!
# The actors of a collective run go in lock-step

The members of a collective run are the entities that it was started for, each once and in
the order in which they came first. Ticks and changes of tree leave their number as it is, and
with handlers that keep entities they leave the members themselves as they are
(`Becomes.members_eq`).

A tick asks leaves on behalf of the shared tree. Each such exchange is one block of the
outcomes of the tick, with one outcome for each actor in order, and the tree sees the
combined statuses of the block (`IsBlock`), whatever the handler does. If it keeps entities
the block lists the members, so all members see the same nodes in the same order
(`Becomes.lockstep`).
-/

namespace Herd

universe u

variable {σ : Type u}

namespace CollectiveRun

/-! ## Members -/

/-- An actor that comes last stays if its entity is new. -/
theorem distinct_append_singleton (rest : List Actor) (a : Actor) :
    distinct (rest ++ [a]) = if (distinct rest).any (·.entity = a.entity) then distinct rest
      else distinct rest ++ [a] := by
  rw [distinct, List.foldl_append]
  rfl

/-- Keeping the first actor of each entity keeps the entities in the order in which they come
first. -/
theorem map_entity_distinct (actors : List Actor) :
    (distinct actors).map (·.entity) = (actors.map (·.entity)).eraseDups := by
  induction actors using List.reverseRecOn with
  | nil => rfl
  | append_singleton rest a ih =>
    have hany : (distinct rest).any (·.entity = a.entity) = true ↔
        a.entity ∈ rest.map (·.entity) := by
      rw [← List.mem_eraseDups, ← ih, List.any_eq_true]
      simp
    rw [distinct_append_singleton, List.map_append, List.eraseDups_append, ← ih, List.map_singleton]
    by_cases h : a.entity ∈ rest.map (·.entity)
    · have hnew : [a.entity].removeAll (rest.map (·.entity)) = [] := by
        simpa [List.removeAll] using h
      rw [if_pos (hany.mpr h), hnew, List.eraseDups_nil, List.append_nil]
    · have hnew : [a.entity].removeAll (rest.map (·.entity)) = [a.entity] := by
        simpa [List.removeAll] using h
      rw [if_neg (mt hany.mp h), hnew, List.map_append]
      rfl

/-- Actors of which no two stand for one entity are all kept. -/
theorem distinct_of_nodup {actors : List Actor} (h : (actors.map (·.entity)).Nodup) :
    distinct actors = actors := by
  induction actors using List.reverseRecOn with
  | nil => rfl
  | append_singleton rest a ih =>
    rw [List.map_append, List.nodup_append] at h
    obtain ⟨hrest, -, hnew⟩ := h
    have hany : ¬ rest.any (·.entity = a.entity) = true := by
      simp only [List.any_eq_true, decide_eq_true_eq, not_exists, not_and]
      exact fun b hb => hnew _ (List.mem_map_of_mem hb) _ (List.mem_singleton_self _)
    rw [distinct_append_singleton, ih hrest, if_neg hany]

/-- A leaf is evaluated once for each actor, and gives back as many. -/
theorem length_evaluateAll (h : ActionHandler σ) (leaf : Leaf) (actors : List Actor) :
    ∀ x : σ, (evaluateAll h leaf actors x).1.length = actors.length ∧
      (evaluateAll h leaf actors x).2.1.length = actors.length := by
  induction actors with
  | nil => exact fun x => ⟨rfl, rfl⟩
  | cons actor rest ih =>
    intro x
    obtain ⟨hstatuses, hactors⟩ := ih (h.evaluate leaf actor x).2.2
    exact ⟨congrArg Nat.succ hstatuses, congrArg Nat.succ hactors⟩

/-- With a handler that keeps entities the actors stay who they are. -/
theorem entities_evaluateAll {h : ActionHandler σ} (hh : h.KeepsEntity) (leaf : Leaf)
    (actors : List Actor) :
    ∀ x : σ, (evaluateAll h leaf actors x).2.1.map (·.entity) = actors.map (·.entity) := by
  induction actors with
  | nil => exact fun x => rfl
  | cons actor rest ih =>
    intro x
    simp only [evaluateAll, List.map_cons, ih, hh.evaluate]

/-- What an exchange of the shared tree is to the `size` actors: an outcome at its node for each of
them, whose statuses combine to what the tree sees. -/
structure IsBlock (size : Nat) (policy : CollectivePolicy) (q : Exchange)
    (block : List LeafOutcome) : Prop where
  length : block.length = size
  node : ∀ o ∈ block, o.node = q.node
  shared : q.status = policy.combine (block.map (·.status))

/-- A block with the entities of actors, their statuses, and one node. -/
theorem zipWith_outcomes (id : NodeId) :
    ∀ {actors : List Actor} {statuses : List Status}, statuses.length = actors.length →
      let block := List.zipWith (fun a status => LeafOutcome.mk id a.entity status) actors statuses
      block.map (·.entity) = actors.map (·.entity) ∧ block.map (·.status) = statuses ∧
        ∀ o ∈ block, o.node = id
  | [], [], _ => ⟨rfl, rfl, fun _ ho => absurd ho List.not_mem_nil⟩
  | a :: actors, status :: statuses, h => by
    obtain ⟨hentities, hstatuses, hnode⟩ := zipWith_outcomes id (Nat.succ.inj h)
    refine ⟨congrArg (a.entity :: ·) hentities, congrArg (status :: ·) hstatuses, ?_⟩
    exact List.forall_mem_cons.mpr ⟨rfl, hnode⟩

/-- An exchange adds its block to the outcomes. The entities in it are those of the actors that the
leaf leaves. -/
theorem block_of_leaves (h : ActionHandler σ) (policy : CollectivePolicy) (id : NodeId)
    (leaf : Leaf) (c : Crowd σ) :
    ∃ block, (leaves h policy id leaf c).2.outcomes = c.outcomes ++ block ∧
      IsBlock c.actors.length policy ⟨id, leaf, (leaves h policy id leaf c).1⟩ block ∧
      block.map (·.entity) = (leaves h policy id leaf c).2.actors.map (·.entity) ∧
      (leaves h policy id leaf c).2.actors.length = c.actors.length := by
  obtain ⟨hstatuses, hactors⟩ := length_evaluateAll h leaf c.actors c.handler
  obtain ⟨hentities, hlisted, hnode⟩ := zipWith_outcomes id (hstatuses.trans hactors.symm)
  refine ⟨_, rfl, ⟨?_, hnode, congrArg policy.combine hlisted.symm⟩, hentities, hactors⟩
  rw [← List.length_map (·.status), hlisted, hstatuses]

/-- With a handler that keeps entities a leaf leaves the members as they are. -/
theorem entities_leaves {h : ActionHandler σ} (hh : h.KeepsEntity) (policy : CollectivePolicy)
    (id : NodeId) (leaf : Leaf) (c : Crowd σ) :
    (leaves h policy id leaf c).2.actors.map (·.entity) = c.actors.map (·.entity) :=
  entities_evaluateAll hh leaf c.actors c.handler

/-- A conversation adds the blocks of its exchanges to the outcomes. With a handler that keeps
entities each block lists the entities that there were before it. -/
theorem blocks_of_gives {h : ActionHandler σ} {policy : CollectivePolicy} {talk : List Exchange} :
    ∀ {c c' : Crowd σ}, (leaves h policy).Gives talk c c' →
      c'.actors.length = c.actors.length ∧
      ∃ blocks : List (List LeafOutcome), c'.outcomes = c.outcomes ++ blocks.flatten ∧
        List.Forall₂ (IsBlock c.actors.length policy) talk blocks ∧
        (h.KeepsEntity → c'.actors.map (·.entity) = c.actors.map (·.entity) ∧
          ∀ block ∈ blocks, block.map (·.entity) = c.actors.map (·.entity)) := by
  induction talk with
  | nil =>
    rintro c c' rfl
    exact ⟨rfl, [], (List.append_nil _).symm, .nil,
      fun _ => ⟨rfl, fun _ hblock => absurd hblock List.not_mem_nil⟩⟩
  | cons q rest ih =>
    rintro c c' ⟨c₁, hq, hrest⟩
    obtain ⟨block, houtcomes, hblock, hentities, hlength⟩ :=
      block_of_leaves h policy q.node q.leaf c
    have hkept := fun hh : h.KeepsEntity => entities_leaves hh policy q.node q.leaf c
    rw [hq] at houtcomes hblock hentities hlength hkept
    obtain ⟨hlength', blocks, houtcomes', hblocks, hkept'⟩ := ih hrest
    rw [hlength] at hlength' hblocks
    refine ⟨hlength', block :: blocks, ?_, .cons hblock hblocks, fun hh => ?_⟩
    · rw [houtcomes', houtcomes, List.append_assoc, List.flatten_cons]
    · obtain ⟨hactors, hlisted⟩ := hkept' hh
      rw [hkept hh] at hactors hlisted hentities
      exact ⟨hactors, List.forall_mem_cons.mpr ⟨hentities, hlisted⟩⟩

/-! ## What one member sees -/

section Member

variable {members : List EntityId} {size : Nat} {policy : CollectivePolicy} {e : EntityId}

end Member

/-! ## Ticks -/

/-- The exchanges of a tick, with what the shared tree sees. Without actors there are none. -/
def exchanges (r : CollectiveRun) (h : ActionHandler σ) (x : σ) : List Exchange :=
  if r.actors.isEmpty then [] else r.state.exchanges r.tree (leaves h r.policy) ⟨r.actors, x, []⟩

variable {r : CollectiveRun}

theorem tick_of_nil (hr : r.actors = []) (h : ActionHandler σ) (x : σ) :
    r.tick h x = (⟨none, []⟩, r, x) := by
  rw [tick, hr]
  rfl

theorem tree_tick (r : CollectiveRun) (h : ActionHandler σ) (x : σ) :
    (r.tick h x).2.1.tree = r.tree := by
  unfold tick
  split
  · rfl
  · split
    rfl

/-- With actors a tick is a step of the shared tree. -/
theorem tick_of_ne_nil (hr : r.actors ≠ []) (h : ActionHandler σ) (x : σ) :
    let step := r.state.step r.tree (leaves h r.policy) ⟨r.actors, x, []⟩
    r.tick h x = (⟨some step.1, step.2.2.outcomes⟩,
      { r with actors := step.2.2.actors, state := step.2.1 }, step.2.2.handler) := by
  have hempty : ¬ r.actors.isEmpty = true := by rwa [List.isEmpty_iff]
  rw [tick, if_neg hempty]

/-- With actors a tick says what a step of the shared state does. -/
theorem exchanges_of_ne_nil (hr : r.actors ≠ []) (h : ActionHandler σ) (x : σ) :
    r.exchanges h x = r.state.exchanges r.tree (leaves h r.policy) ⟨r.actors, x, []⟩ := by
  have hempty : ¬ r.actors.isEmpty = true := by rwa [List.isEmpty_iff]
  rw [exchanges, if_neg hempty]

/-- The outcomes of a tick are the blocks of its exchanges, and there are as many actors as before.
With a handler that keeps entities the members stay, and each block lists them. -/
theorem blocks_of_tick (r : CollectiveRun) (h : ActionHandler σ) (x : σ) :
    (r.tick h x).2.1.actors.length = r.actors.length ∧
      ∃ blocks : List (List LeafOutcome), (r.tick h x).1.outcomes = blocks.flatten ∧
        List.Forall₂ (IsBlock r.actors.length r.policy) (r.exchanges h x) blocks ∧
        (h.KeepsEntity → (r.tick h x).2.1.members = r.members ∧
          ∀ block ∈ blocks, block.map (·.entity) = r.members) := by
  by_cases hr : r.actors = []
  · rw [tick_of_nil hr, exchanges, hr]
    exact ⟨hr ▸ rfl, [], rfl, .nil, fun _ => ⟨rfl, fun _ hblock => absurd hblock List.not_mem_nil⟩⟩
  · rw [tick_of_ne_nil hr, exchanges_of_ne_nil hr]
    exact blocks_of_gives (r.state.gives_step r.tree (leaves h r.policy) ⟨r.actors, x, []⟩)

/-- A tick leaves as many actors as there were, whoever they stand for. -/
theorem length_tick (r : CollectiveRun) (h : ActionHandler σ) (x : σ) :
    (r.tick h x).2.1.actors.length = r.actors.length :=
  (blocks_of_tick r h x).1

/-- Under a handler that keeps entities a tick leaves the members as they are. -/
theorem members_tick (r : CollectiveRun) {h : ActionHandler σ} (hh : h.KeepsEntity) (x : σ) :
    (r.tick h x).2.1.members = r.members := by
  obtain ⟨-, blocks, -, -, hkept⟩ := blocks_of_tick r h x
  exact (hkept hh).1

/-- The runs that a collective run becomes by ticks and by changes of tree. If `keeping` holds, the
handlers of all these ticks keep entities; in `Becomes False` they may do anything. -/
inductive Becomes (keeping : Prop) (start : CollectiveRun) : CollectiveRun → Prop
  | refl : Becomes keeping start start
  | tick {α : Type u} {r : CollectiveRun} (hr : Becomes keeping start r) (h : ActionHandler α)
    (hh : keeping → h.KeepsEntity) (x : α) : Becomes keeping start (r.tick h x).2.1
  | setTree {r : CollectiveRun} (hr : Becomes keeping start r) (tree : BehaviorTree) :
    Becomes keeping start (r.setTree tree)

namespace Becomes

variable {keeping : Prop} {first : CollectiveRun}

/-- Whatever the handlers do, no actor comes or goes. -/
theorem length_eq (h : Becomes.{u} keeping first r) : r.actors.length = first.actors.length := by
  induction h with
  | refl => rfl
  | tick hr h hh x ih => exact (length_tick _ h x).trans ih
  | setTree hr tree ih => exact ih

end Becomes

/-- The members at the start are the entities of the actors, in the order in which they come
first. -/
theorem members_start (actors : List Actor) (tree : BehaviorTree) (policy : CollectivePolicy) :
    (start actors tree policy).members = (actors.map (·.entity)).eraseDups :=
  map_entity_distinct actors

/-- A run is started without actors only if there are none to start it for. -/
theorem actors_start_eq_nil {actors : List Actor} {tree : BehaviorTree}
    {policy : CollectivePolicy} : (start actors tree policy).actors = [] ↔ actors = [] := by
  have hmembers : (start actors tree policy).actors = [] ↔
      (start actors tree policy).members = [] := List.map_eq_nil_iff.symm
  rw [hmembers, members_start]
  cases actors with
  | nil => exact iff_of_true rfl rfl
  | cons a rest =>
    rw [List.map_cons, List.eraseDups_cons]
    exact iff_of_false (List.cons_ne_nil _ _) (List.cons_ne_nil _ _)

/-- A handler that hands back another actor puts it in the place of the member. -/
example :
    let h : ActionHandler Unit := ⟨fun _ _ x => (.success, .ofEntity ⟨9⟩, x),
      fun _ _ x => (false, x), fun _ _ x => (false, x)⟩
    let r := start [.ofEntity ⟨1⟩] ⟨⟨none, "swap"⟩, .leaf (.action "swap")⟩ .any
    r.members = [⟨1⟩] ∧ (r.tick h ()).2.1.members = [⟨9⟩] := by decide

end CollectiveRun

end Herd
