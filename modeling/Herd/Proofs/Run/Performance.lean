import Herd.Proofs.Run.Reorder

/-!
# What is performed in a tick is recorded three times

A script logs each action that it answers and leaves the name of it on the blackboard; the tick
lists what leaves did to actors. A leaf for all actors makes one entry after another in all three
(`CollectiveRun.recorded_leaves`), with the address of the leaf in the tick and the name of its
action in the log and on the blackboards. Since what is asked in a tick are leaves of the tree at
their addresses, the log and the blackboards can be read off the tick
(`CollectiveRun.tick_recorded`).
-/

namespace Herd

/-! ## Actions -/

/-- The action that a leaf executes, if it executes one. -/
def Leaf.action? : Leaf → Option String
  | .action name => some name
  | _ => none

/-- The action at an address of a tree. -/
def BehaviorTree.actionAt (tree : BehaviorTree) (id : NodeId) : Option String :=
  match tree.node? id with
  | some (.leaf leaf) => leaf.action?
  | _ => none

theorem BehaviorTree.actionAt_of_leaf {tree : BehaviorTree} {id : NodeId} {leaf : Leaf}
    (h : tree.node? id = some (.leaf leaf)) : tree.actionAt id = leaf.action? := by
  rw [actionAt, h]

/-- The action that an outcome is of, by the tree, and who performed it. -/
def BehaviorTree.performed? (tree : BehaviorTree) (o : LeafOutcome) : Option (EntityId × String) :=
  (tree.actionAt o.node).map (o.entity, ·)

/-- The last action of an entity among outcomes. -/
def BehaviorTree.lastAction? (tree : BehaviorTree) (outcomes : List LeafOutcome) (e : EntityId) :
    Option String :=
  ((outcomes.filter (·.entity = e)).filterMap fun o => tree.actionAt o.node).getLast?

/-- The actor with the name of its last action, if it had one, on its blackboard. -/
def Actor.noting (a : Actor) : Option String → Actor
  | some name => { a with blackboard := a.blackboard.insert Script.lastActionKey name }
  | none => a

@[simp]
theorem Actor.entity_noting (a : Actor) (last : Option String) :
    (a.noting last).entity = a.entity := by
  cases last <;> rfl

/-- Noting an action sets one key of the blackboard. -/
theorem Actor.find?_noting (a : Actor) (last : Option String) (key : String) :
    (a.noting last).blackboard.find? key =
      if key = Script.lastActionKey then last.or (a.blackboard.find? key)
      else a.blackboard.find? key := by
  cases last with
  | none => exact (ite_self _).symm
  | some name =>
    show (a.blackboard.insert Script.lastActionKey name).find? key = _
    split
    · next hkey => rw [hkey, Table.find?_insert_self, Option.some_or]
    · next hkey => exact Table.find?_insert_of_ne _ hkey name

theorem Actor.ext_find? {a b : Actor} (hentity : a.entity = b.entity)
    (hkeys : ∀ key, a.blackboard.find? key = b.blackboard.find? key) : a = b := by
  cases a
  cases b
  exact congrArg₂ Actor.mk hentity (Table.ext_find? hkeys)

/-- Of two notes the second stays. -/
theorem Actor.noting_noting (a : Actor) (first second : Option String) :
    (a.noting first).noting second = a.noting (second.or first) := by
  refine Actor.ext_find? ?_ fun key => ?_
  · rw [entity_noting, entity_noting, entity_noting]
  · rw [find?_noting, find?_noting, find?_noting]
    split
    · exact Option.or_assoc.symm
    · rfl

/-- A leaf marks an actor with the action that it names, if it names one. -/
theorem Leaf.marked_eq (leaf : Leaf) (a : Actor) : leaf.marked a = a.noting leaf.action? := by
  cases leaf <;> rfl

namespace BehaviorTree

variable {tree : BehaviorTree} {first second : List LeafOutcome} {e : EntityId}

/-- The last action is the last of what came later, or else of what came before. -/
theorem lastAction?_append : tree.lastAction? (first ++ second) e =
    (tree.lastAction? second e).or (tree.lastAction? first e) := by
  rw [lastAction?, List.filter_append, List.filterMap_append, List.getLast?_append]
  rfl

/-- Where all outcomes are at one node, the last action of whoever has an outcome is the action
there. -/
theorem lastAction?_of_node {id : NodeId} {block : List LeafOutcome}
    (hnode : ∀ o ∈ block, o.node = id) (he : e ∈ block.map (·.entity)) :
    tree.lastAction? block e = tree.actionAt id := by
  obtain ⟨o, ho, hoe⟩ := List.mem_map.mp he
  have hmem : o ∈ block.filter (·.entity = e) := List.mem_filter.mpr ⟨ho, by simpa using hoe⟩
  have hsame : (block.filter (·.entity = e)).filterMap (fun o => tree.actionAt o.node) =
      (block.filter (·.entity = e)).filterMap fun _ => tree.actionAt id :=
    List.filterMap_congr fun o ho => by rw [hnode o (List.mem_of_mem_filter ho)]
  rw [lastAction?, hsame]
  cases tree.actionAt id with
  | none => rw [List.filterMap_none]; rfl
  | some name =>
    rw [List.filterMap_eq_map', List.getLast?_map,
      List.getLast?_eq_some_getLast (List.ne_nil_of_mem hmem)]
    rfl

end BehaviorTree

/-! ## Scripts -/

namespace Script

/-- From `s` to `t` the script has logged what was performed and laid down nothing. -/
structure Performs (performed : List (EntityId × String)) (s t : Script) : Prop where
  log : t.log = s.log ++ performed
  results : t.results = s.results
  overrides : t.overrides = s.overrides

variable {first second : List (EntityId × String)} {s t u : Script}

theorem Performs.refl (s : Script) : Performs [] s s := ⟨(List.append_nil _).symm, rfl, rfl⟩

theorem Performs.append (h : Performs first s t) (h' : Performs second t u) :
    Performs (first ++ second) s u :=
  ⟨by rw [h'.log, h.log, List.append_assoc], h'.results.trans h.results,
    h'.overrides.trans h.overrides⟩

/-- Performing does not change what an action comes to. -/
theorem Performs.resultFor_eq (h : Performs first s t) (e : EntityId) (name : String) :
    t.resultFor e name = s.resultFor e name := by
  rw [resultFor, resultFor, h.results, h.overrides]

/-- An override counts first, then the result of the name, and else the action fails. -/
theorem resultFor_eq (s : Script) (e : EntityId) (name : String) :
    s.resultFor e name =
      ((s.overrides.lookup (e, name)).or (s.results.lookup name)).getD .failure := by
  rw [resultFor]
  cases s.overrides.lookup (e, name) <;> rfl

/-- A leaf marks the actor and logs its action. -/
theorem performs_evaluate (leaf : Leaf) (a : Actor) (s : Script) :
    (handler.evaluate leaf a s).2.1 = leaf.marked a ∧
      Performs ((leaf.action?.map (a.entity, ·)).toList) s (handler.evaluate leaf a s).2.2 := by
  cases leaf with
  | action name => exact ⟨rfl, rfl, rfl, rfl⟩
  | condition name => exact ⟨rfl, .refl s⟩
  | chance p => exact ⟨rfl, (List.append_nil _).symm, rfl, rfl⟩

end Script

namespace CollectiveRun

open Script (handler)

/-! ## A leaf for all actors -/

/-- All actors are marked, and each logs its action in turn. -/
theorem performs_evaluateAll (leaf : Leaf) (actors : List Actor) :
    ∀ s : Script, (evaluateAll handler leaf actors s).2.1 = actors.map leaf.marked ∧
      Script.Performs (actors.filterMap fun a => leaf.action?.map (a.entity, ·)) s
        (evaluateAll handler leaf actors s).2.2 := by
  induction actors with
  | nil => exact fun s => ⟨rfl, .refl s⟩
  | cons a rest ih =>
    intro s
    obtain ⟨hmarked, hlogged⟩ := Script.performs_evaluate leaf a s
    obtain ⟨hmarked', hlogged'⟩ := ih (handler.evaluate leaf a s).2.2
    refine ⟨?_, ?_⟩
    · show (handler.evaluate leaf a s).2.1 ::
        (evaluateAll handler leaf rest (handler.evaluate leaf a s).2.2).2.1 = _
      rw [hmarked, hmarked', List.map_cons]
    · have hboth := hlogged.append hlogged'
      rw [List.filterMap_cons]
      cases haction : leaf.action? <;> rw [haction] at hboth <;> exact hboth

/-- Between two crowds there are new outcomes, and they are recorded: in the log and on the
blackboards by the actions at their nodes in the tree. The status of each that is of an action is
what the script says. -/
structure Recorded (tree : BehaviorTree) (new : List LeafOutcome) (c c' : Crowd Script) :
    Prop where
  outcomes : c'.outcomes = c.outcomes ++ new
  performed : Script.Performs (new.filterMap tree.performed?) c.handler c'.handler
  status : ∀ o ∈ new, ∀ name, tree.actionAt o.node = some name →
    o.status = c.handler.resultFor o.entity name
  actors : c'.actors = c.actors.map fun a => a.noting (tree.lastAction? new a.entity)

variable {tree : BehaviorTree} {c c' c'' : Crowd Script}

theorem Recorded.refl (c : Crowd Script) : Recorded tree [] c c :=
  ⟨(List.append_nil _).symm, .refl _, nofun, (List.map_id _).symm⟩

theorem Recorded.append {first second : List LeafOutcome} (h : Recorded tree first c c')
    (h' : Recorded tree second c' c'') : Recorded tree (first ++ second) c c'' := by
  refine ⟨by rw [h'.outcomes, h.outcomes, List.append_assoc], ?_, fun o ho name hname => ?_, ?_⟩
  · rw [List.filterMap_append]
    exact h.performed.append h'.performed
  · rcases List.mem_append.mp ho with ho | ho
    · exact h.status o ho name hname
    · rw [h'.status o ho name hname, h.performed.resultFor_eq]
  · rw [h'.actors, h.actors, List.map_map]
    refine List.map_congr_left fun a _ => ?_
    rw [Function.comp_apply, Actor.entity_noting, Actor.noting_noting,
      BehaviorTree.lastAction?_append]

/-- **What a leaf does to all actors is recorded.** -/
theorem recorded_leaves {id : NodeId} {leaf : Leaf} (hleaf : tree.node? id = some (.leaf leaf))
    (policy : CollectivePolicy) (c : Crowd Script) :
    ∃ block, Recorded tree block c (leaves handler policy id leaf c).2 := by
  obtain ⟨block, houtcomes, hblock, hleft, -⟩ := block_of_leaves handler policy id leaf c
  have hentities : block.map (·.entity) = c.actors.map (·.entity) :=
    hleft.trans (entities_leaves Script.handler_keepsEntity policy id leaf c)
  obtain ⟨hmarked, hperformed⟩ := performs_evaluateAll leaf c.actors c.handler
  have haction : ∀ o ∈ block, tree.actionAt o.node = leaf.action? := fun o ho => by
    rw [hblock.node o ho, BehaviorTree.actionAt_of_leaf hleaf]
  refine ⟨block, houtcomes, ?_, fun o ho name hname => ?_, ?_⟩
  · -- the block lists the actors in order, and so does the log
    have hlisted : block.filterMap tree.performed? =
        c.actors.filterMap fun a => leaf.action?.map (a.entity, ·) := by
      calc block.filterMap tree.performed?
          = block.filterMap fun o => leaf.action?.map (o.entity, ·) :=
            List.filterMap_congr fun o ho => by rw [BehaviorTree.performed?, haction o ho]
        _ = (block.map (·.entity)).filterMap fun e => leaf.action?.map (e, ·) := by
            rw [List.filterMap_map]
            rfl
        _ = c.actors.filterMap fun a => leaf.action?.map (a.entity, ·) := by
            rw [hentities, List.filterMap_map]
            rfl
    rw [hlisted]
    exact hperformed
  · rw [haction o ho] at hname
    cases leaf with
    | condition _ | chance _ => cases hname
    | action _ =>
      cases hname
      have hcertain : (Leaf.action name).Certain := trivial
      obtain ⟨t, ht, -⟩ := leaves_of_certain hcertain policy id c
      rw [ht] at houtcomes
      rw [← List.append_cancel_left houtcomes] at ho
      obtain ⟨a, -, rfl⟩ := List.mem_map.mp ho
      rfl
  · refine hmarked.trans (List.map_congr_left fun a ha => ?_)
    have he : a.entity ∈ block.map (·.entity) := by
      rw [hentities]
      exact List.mem_map_of_mem ha
    rw [Leaf.marked_eq, BehaviorTree.lastAction?_of_node hblock.node he,
      BehaviorTree.actionAt_of_leaf hleaf]

/-- So is what a conversation with leaves of the tree does. -/
theorem recorded_of_gives {policy : CollectivePolicy} {talk : List Exchange} :
    ∀ {c c' : Crowd Script}, (∀ q ∈ talk, tree.node? q.node = some (.leaf q.leaf)) →
      (leaves handler policy).Gives talk c c' → ∃ new, Recorded tree new c c' := by
  induction talk with
  | nil =>
    rintro c c' - rfl
    exact ⟨[], .refl _⟩
  | cons q rest ih =>
    rintro c c' htree ⟨c₁, hq, hrest⟩
    obtain ⟨hleaf, htree'⟩ := List.forall_mem_cons.mp htree
    obtain ⟨block, hblock⟩ := recorded_leaves hleaf policy c
    rw [hq] at hblock
    obtain ⟨new, hnew⟩ := ih htree' hrest
    exact ⟨block ++ new, hblock.append hnew⟩

/-! ## Ticks -/

/-- A tick records what it did, in its outcomes, in the script and with the actors. -/
theorem recorded_tick (r : CollectiveRun) (s : Script) :
    Recorded r.tree (r.tick handler s).1.outcomes ⟨r.actors, s, []⟩
      ⟨(r.tick handler s).2.1.actors, (r.tick handler s).2.2, (r.tick handler s).1.outcomes⟩ := by
  by_cases hr : r.actors = []
  · rw [tick_of_nil hr]
    exact .refl _
  · obtain ⟨new, hnew⟩ := recorded_of_gives (fun q hq => RunState.node?_of_mem_exchanges hq)
      (r.state.gives_step r.tree (leaves handler r.policy) ⟨r.actors, s, []⟩)
    have houtcomes := hnew.outcomes
    rw [List.nil_append] at houtcomes
    subst houtcomes
    rw [tick_of_ne_nil hr]
    exact hnew

/-- **The log, the blackboards and the outcomes of a tick agree.** What a script logs in a tick are,
in order, the outcomes at those nodes that are actions of the tree, each as its entity and the name
of the action. The status of such an outcome is what is laid down for the entity, else for the
action, else failure. Of each actor the entity stays, and of its blackboard all but the last action,
which is that of its last such outcome if there is one. -/
theorem tick_recorded (r : CollectiveRun) (s : Script) :
    let after := r.tick handler s
    after.2.2.log = s.log ++ after.1.outcomes.filterMap r.tree.performed? ∧
      (∀ o ∈ after.1.outcomes, ∀ name, r.tree.actionAt o.node = some name →
        o.status =
          ((s.overrides.lookup (o.entity, name)).or (s.results.lookup name)).getD .failure) ∧
      List.Forall₂ (fun a a' => a'.entity = a.entity ∧ ∀ key,
          a'.blackboard.find? key =
            if key = Script.lastActionKey then
              (r.tree.lastAction? after.1.outcomes a.entity).or (a.blackboard.find? key)
            else a.blackboard.find? key)
        r.actors after.2.1.actors := by
  have hrecorded := r.recorded_tick s
  refine ⟨hrecorded.performed.log, fun o ho name hname => ?_, ?_⟩
  · rw [← Script.resultFor_eq]
    exact hrecorded.status o ho name hname
  · rw [show (r.tick handler s).2.1.actors = _ from hrecorded.actors, List.forall₂_map_right_iff,
      List.forall₂_same]
    exact fun a _ => ⟨a.entity_noting _, a.find?_noting _⟩

/-- A calm deer and one that strays pass the gate: both are logged for the walk, and the stray
answers as it is told to. The calm one keeps its mood and gets the walk as its last action. -/
theorem strayDeer_recorded :
    let s := ((Script.ofSeed 7).setResult "walk" .success).setOverride ⟨2⟩ "walk" .running
    let after := (start calmAndStray openGate .all).tick handler s
    after.2.2.log = [(⟨1⟩, "walk"), (⟨2⟩, "walk")] ∧
      ⟨4, ⟨2⟩, .running⟩ ∈ after.1.outcomes ∧ openGate.actionAt 4 = some "walk" ∧
      .running = ((s.overrides.lookup (⟨2⟩, "walk")).or (s.results.lookup "walk")).getD .failure ∧
      after.2.1.actors.map (·.blackboard.find? "mood") = [some "calm", none] ∧
      after.2.1.actors.map (·.blackboard.find? "last_action") = [some "walk", some "walk"] := by
  intro s after
  obtain ⟨hlog, hstatus, -⟩ := tick_recorded (start calmAndStray openGate .all) s
  have houtcome : ⟨4, ⟨2⟩, .running⟩ ∈ after.1.outcomes := by decide
  have haction : openGate.actionAt 4 = some "walk" := by decide
  refine ⟨hlog.trans (by decide), houtcome, haction, hstatus _ houtcome "walk" haction, ?_, ?_⟩ <;>
    decide

end CollectiveRun

end Herd
