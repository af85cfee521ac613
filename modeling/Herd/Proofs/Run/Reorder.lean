import Herd.Proofs.Run.Unison
import Herd.Run.Script

/-!
# The order of a herd does not matter

A script answers a leaf by the entity and by what was laid down, and a policy combines the
answers of a leaf whatever their order (`combine_perm`). The log and the blackboards record what
was done and are never asked. Only a chance that may go either way takes a draw, so that a
leaf asked earlier gets the earlier draw.

So over a tree that leaves nothing to such a chance two runs whose actors are the same in
another order stay so: a leaf keeps it (`reordered_leaves`), hence a conversation, a tick
(`Reordered.tick`) and a run.
-/

namespace Herd

/-- It does not take a draw: if it is a chance, it is at most 0, or at least 1, or no number. -/
def Leaf.Certain : Leaf → Prop
  | .chance p => ¬ (0 < p ∧ p < 1)
  | _ => True

/-- All leaves of the tree are certain. -/
def BehaviorTree.Certain (tree : BehaviorTree) : Prop :=
  ∀ id leaf, tree.node? id = some (.leaf leaf) → leaf.Certain

/-- What a leaf of a script leaves with an actor: an action leaves its name. -/
def Leaf.marked (leaf : Leaf) (a : Actor) : Actor :=
  match leaf with
  | .action name => { a with blackboard := a.blackboard.insert Script.lastActionKey name }
  | _ => a

@[simp]
theorem Leaf.entity_marked (leaf : Leaf) (a : Actor) : (leaf.marked a).entity = a.entity := by
  cases leaf <;> rfl

namespace Script

/-! ## What is laid down, and what is only recorded -/

/-- A change to what is laid down, or to the log. -/
inductive Change
  | result (name : String) (status : Status)
  | override (entity : EntityId) (name : String) (status : Status)
  | condition (name : String) (value : Bool)
  | clearLog

/-- The script with a change. -/
def change (s : Script) : Change → Script
  | .result name status => s.setResult name status
  | .override entity name status => s.setOverride entity name status
  | .condition name value => s.setCondition name value
  | .clearLog => s.clearLog

/-- The script with one change after another. -/
def changes (s : Script) (cs : List Change) : Script := cs.foldl change s

/-- What is laid down comes of what was, whatever the log. -/
theorem clearLog_change (s : Script) (c : Change) :
    (s.clearLog.change c).clearLog = (s.change c).clearLog := by
  cases c <;> rfl

variable {s t : Script}

/-- Scripts that are laid down the same are so after the same changes. -/
theorem clearLog_changes (h : s.clearLog = t.clearLog) (cs : List Change) :
    (s.changes cs).clearLog = (t.changes cs).clearLog := by
  induction cs generalizing s t with
  | nil => exact h
  | cons c cs ih =>
    refine ih ?_
    rw [← clearLog_change s, ← clearLog_change t, h]

/-- What a leaf answers for an entity, where it is certain. -/
def answer (s : Script) (leaf : Leaf) (e : EntityId) : Status :=
  match leaf with
  | .action name => s.resultFor e name
  | .condition name => .ofBool (s.holds name)
  | .chance p => .ofBool (p ≥ 1)

/-- What a script answers is not up to what it has recorded. -/
theorem answer_congr (h : s.clearLog = t.clearLog) (leaf : Leaf) :
    s.answer leaf = t.answer leaf := by
  have hcleared : ∀ s : Script, s.clearLog.answer leaf = s.answer leaf := fun s => by
    cases leaf <;> rfl
  rw [← hcleared s, ← hcleared t, h]

/-- A certain leaf is answered by what is laid down, marks the actor, and changes the record only.
-/
theorem evaluate_of_certain {leaf : Leaf} (hleaf : leaf.Certain) (a : Actor) (s : Script) :
    ∃ t, handler.evaluate leaf a s = (s.answer leaf a.entity, leaf.marked a, t) ∧
      t.clearLog = s.clearLog := by
  cases leaf with
  | action name => exact ⟨_, rfl, rfl⟩
  | condition name => exact ⟨_, rfl, rfl⟩
  | chance p =>
    -- only here is certainty used: the stream stays where it is
    have hroll : s.stream.roll p = (decide (p ≥ 1), s.stream) := by
      rw [Random.Stream.roll, if_neg]
      rw [Bool.and_eq_true, decide_eq_true_eq, decide_eq_true_eq]
      exact hleaf
    refine ⟨s, ?_, rfl⟩
    simp only [ActionHandler.evaluate, handler, hroll]
    rfl

end Script

namespace CollectiveRun

open Script (handler)

/-! ## A leaf for all actors -/

/-- A policy does not see in which order the statuses come. -/
theorem combine_perm (policy : CollectivePolicy) {statuses statuses' : List Status}
    (h : statuses.Perm statuses') : policy.combine statuses = policy.combine statuses' := by
  have hall : statuses.all (· = .success) = statuses'.all (· = .success) := by
    rw [Bool.eq_iff_iff, List.all_eq_true, List.all_eq_true]
    exact forall_congr' fun status => by rw [h.mem_iff]
  cases policy <;> simp only [CollectivePolicy.combine, h.isEmpty_eq, h.mem_iff, hall]

variable {leaf : Leaf}

/-- A certain leaf answers for each actor from what is laid down. -/
theorem evaluateAll_of_certain (hleaf : leaf.Certain) (actors : List Actor) :
    ∀ s : Script, ∃ t, evaluateAll handler leaf actors s =
        (actors.map fun a => s.answer leaf a.entity, actors.map leaf.marked, t) ∧
      t.clearLog = s.clearLog := by
  induction actors with
  | nil => exact fun s => ⟨s, rfl, rfl⟩
  | cons a rest ih =>
    intro s
    obtain ⟨t, ht, htlog⟩ := Script.evaluate_of_certain hleaf a s
    obtain ⟨u, hu, hulog⟩ := ih t
    refine ⟨u, ?_, hulog.trans htlog⟩
    -- the others hear from `t` what they would hear from `s`
    simp only [evaluateAll, ht, hu, Script.answer_congr htlog leaf, List.map_cons]

/-- What a certain leaf does to the actors is listed actor by actor. -/
theorem leaves_of_certain (hleaf : leaf.Certain) (policy : CollectivePolicy) (id : NodeId)
    (c : Crowd Script) :
    ∃ t, leaves handler policy id leaf c =
        (policy.combine (c.actors.map fun a => c.handler.answer leaf a.entity),
          ⟨c.actors.map leaf.marked, t,
            c.outcomes ++ c.actors.map fun a => ⟨id, a.entity, c.handler.answer leaf a.entity⟩⟩) ∧
      t.clearLog = c.handler.clearLog := by
  obtain ⟨t, ht, hlog⟩ := evaluateAll_of_certain hleaf c.actors c.handler
  refine ⟨t, ?_, hlog⟩
  simp only [leaves, ht, List.zipWith_map, List.zipWith_self, Leaf.entity_marked]

/-- What a leaf that answers by entity did to one of them: so often the same. -/
theorem filter_outcomes (id : NodeId) (answer : EntityId → Status) (actors : List Actor)
    (e : EntityId) :
    (actors.map fun a => LeafOutcome.mk id a.entity (answer a.entity)).filter (·.entity = e) =
      List.replicate (actors.countP (·.entity = e)) ⟨id, e, answer e⟩ := by
  induction actors with
  | nil => rfl
  | cons a rest ih =>
    by_cases ha : a.entity = e
    · simp [ha, ih, List.replicate_succ]
    · simp [ha, ih]

/-! ## The same crowd in another order -/

/-- The same actors in another order, under scripts of which the same is laid down; and the same
was done to each entity. -/
structure Crowd.Reordered (c d : Crowd Script) : Prop where
  actors : c.actors.Perm d.actors
  script : c.handler.clearLog = d.handler.clearLog
  outcomes : ∀ e, c.outcomes.filter (·.entity = e) = d.outcomes.filter (·.entity = e)

/-- A certain leaf answers both crowds the same and leaves them reordered. -/
theorem reordered_leaves {c d : Crowd Script} (hcd : c.Reordered d) (hleaf : leaf.Certain)
    (policy : CollectivePolicy) (id : NodeId) :
    (leaves handler policy id leaf c).1 = (leaves handler policy id leaf d).1 ∧
      (leaves handler policy id leaf c).2.Reordered (leaves handler policy id leaf d).2 := by
  obtain ⟨s, hc, hs⟩ := leaves_of_certain hleaf policy id c
  obtain ⟨t, hd, ht⟩ := leaves_of_certain hleaf policy id d
  rw [hc, hd, Script.answer_congr hcd.script leaf]
  refine ⟨combine_perm policy (hcd.actors.map _), hcd.actors.map _, ?_, fun e => ?_⟩
  · exact hs.trans (hcd.script.trans ht.symm)
  · rw [List.filter_append, List.filter_append, filter_outcomes, filter_outcomes, hcd.outcomes,
      hcd.actors.countP_eq]

/-- So a conversation with certain leaves can be held with the other crowd as well. -/
theorem gives_of_reordered {policy : CollectivePolicy} {talk : List Exchange} :
    ∀ {c c' d : Crowd Script}, c.Reordered d → (∀ q ∈ talk, q.leaf.Certain) →
      (leaves handler policy).Gives talk c c' →
      ∃ d', (leaves handler policy).Gives talk d d' ∧ c'.Reordered d' := by
  induction talk with
  | nil =>
    rintro c c' d hcd - rfl
    exact ⟨d, rfl, hcd⟩
  | cons q rest ih =>
    rintro c c' d hcd hcertain ⟨c₁, hq, hrest⟩
    obtain ⟨hq', hrest'⟩ := List.forall_mem_cons.mp hcertain
    obtain ⟨hstatus, hcd₁⟩ := reordered_leaves hcd hq' policy q.node
    rw [hq] at hstatus hcd₁
    obtain ⟨d', hgives, hcd'⟩ := ih hcd₁ hrest' hrest
    exact ⟨d', ⟨(leaves handler policy q.node q.leaf d).2, Prod.ext hstatus.symm rfl, hgives⟩, hcd'⟩

/-! ## Ticks -/

/-- Two runs that stand in the same place, of the same actors in another order. -/
structure Reordered (r r' : CollectiveRun) : Prop where
  actors : r.actors.Perm r'.actors
  tree : r.tree = r'.tree
  state : r.state = r'.state
  policy : r.policy = r'.policy

variable {r r' : CollectiveRun}

/-- **A tick in another order**: under scripts of which the same is laid down both runs come to the
same status and do the same to each entity, and stand in the same place again. -/
theorem Reordered.tick (hr : r.Reordered r') (hcertain : r.tree.Certain) {s s' : Script}
    (hs : s.clearLog = s'.clearLog) :
    ((r.tick handler s).1.status = (r'.tick handler s').1.status ∧
      ∀ e, (r.tick handler s).1.forActor e = (r'.tick handler s').1.forActor e) ∧
    (r.tick handler s).2.1.Reordered (r'.tick handler s').2.1 ∧
    (r.tick handler s).2.2.clearLog = (r'.tick handler s').2.2.clearLog := by
  by_cases hnil : r.actors = []
  · have hnil' : r'.actors = [] := (hnil ▸ hr.actors).nil_eq.symm
    rw [tick_of_nil hnil, tick_of_nil hnil']
    exact ⟨⟨rfl, fun _ => rfl⟩, hr, hs⟩
  · have hnil' : r'.actors ≠ [] := fun h => hnil (h ▸ hr.actors).eq_nil
    have hstart : (Crowd.mk r.actors s []).Reordered ⟨r'.actors, s', []⟩ :=
      ⟨hr.actors, hs, fun _ => rfl⟩
    -- the other crowd holds the conversation of the first, and a conversation settles the step
    obtain ⟨c', hgives, hleft⟩ := gives_of_reordered hstart (fun q hq => hcertain _ _
      (RunState.node?_of_mem_exchanges hq))
      (r.state.gives_step r.tree (leaves handler r.policy) ⟨r.actors, s, []⟩)
    have hstep := RunState.step_of_gives hgives
    rw [tick_of_ne_nil hnil, tick_of_ne_nil hnil', ← hr.tree, ← hr.state, ← hr.policy, hstep]
    exact ⟨⟨rfl, hleft.outcomes⟩, ⟨hleft.actors, rfl, rfl, rfl⟩, hleft.script⟩

/-! ## Many ticks -/

/-- A script that answers in every tick, with what is changed before each. -/
def scripted (first : Script) (changes : Nat → List Script.Change) : Driver Script :=
  ⟨fun _ => handler, fun n s => s.changes (changes n), first⟩

variable (first : Script) (changes : Nat → List Script.Change)

/-- A reordered crowd is found reordered at every tick. -/
theorem Reordered.found (hr : r.Reordered r') (hcertain : r.tree.Certain) (n : Nat) :
    let there := (scripted first changes).found CollectiveRun.tick r n
    let there' := (scripted first changes).found CollectiveRun.tick r' n
    (there.1.Reordered there'.1 ∧ there.1.tree.Certain) ∧
      there.2.clearLog = there'.2.clearLog := by
  refine Driver.found_related (R := fun (r r' : CollectiveRun) => r.Reordered r' ∧ r.tree.Certain)
    (S := fun (s s' : Script) => s.clearLog = s'.clearLog) ⟨hr, hcertain⟩ rfl
    (fun n _ _ hs => Script.clearLog_changes hs (changes n)) (fun n r r' s s' hrr' hs => ?_) n
  obtain ⟨-, hnext, hleft⟩ := hrr'.1.tick hrr'.2 hs
  exact ⟨⟨hnext, (tree_tick r handler s).symm ▸ hrr'.2⟩, hleft⟩

/-- **The order of the actors does not matter.** Over a tree that leaves nothing to a chance that
may go either way, two collective runs of the same distinct actors in another order, whose script is
changed alike, have in every tick the same status and the same state, and the same is done to each
entity. Each keeps its members in its own order, and has the same actors with the same
blackboards. -/
theorem order_irrelevant {tree : BehaviorTree} (hcertain : tree.Certain)
    {actors actors' : List Actor} (hdistinct : (actors.map (·.entity)).Nodup)
    (hperm : actors.Perm actors') (policy : CollectivePolicy) (n : Nat) :
    let after := (scripted first changes).nth tick (start actors tree policy) n
    let after' := (scripted first changes).nth tick (start actors' tree policy) n
    after.1.status = after'.1.status ∧
      after.2.1.state = after'.2.1.state ∧
      (∀ e, after.1.forActor e = after'.1.forActor e) ∧
      (after.2.1.members = actors.map (·.entity) ∧ after'.2.1.members = actors'.map (·.entity)) ∧
      after.2.1.actors.Perm after'.2.1.actors := by
  have hdistinct' : (actors'.map (·.entity)).Nodup := (hperm.map _).nodup_iff.mp hdistinct
  have hmembers : ∀ {actors : List Actor}, (actors.map (·.entity)).Nodup →
      ((scripted first changes).nth tick (start actors tree policy) n).2.1.members =
        actors.map (·.entity) := by
    intro actors h
    have hkept := members_found (d := scripted first changes) (start actors tree policy)
      (n := n + 1) fun _ _ => Script.handler_keepsEntity
    refine hkept.trans ?_
    rw [members, start, distinct_of_nodup h]
  have hstart : (start actors tree policy).Reordered (start actors' tree policy) := by
    refine ⟨?_, rfl, rfl, rfl⟩
    rw [start, start, distinct_of_nodup hdistinct, distinct_of_nodup hdistinct']
    exact hperm
  intro after after'
  obtain ⟨⟨hfound, hstill⟩, hscript⟩ := hstart.found first changes hcertain n
  obtain ⟨⟨hstatus, houtcomes⟩, hnext, -⟩ := hfound.tick hstill hscript
  exact ⟨hstatus, hnext.state, houtcomes, ⟨hmembers hdistinct, hmembers hdistinct'⟩, hnext.actors⟩

/-- A tree with a chance that always comes true. -/
def openGate : BehaviorTree := ⟨⟨none, "gate"⟩, .sequence [.leaf (.chance 1),
  .decorated .inverter (.leaf (.condition "seen")), .leaf (.action "walk")]⟩

/-- A calm deer, and one that strays. -/
def calmAndStray : List Actor := [⟨⟨1⟩, Table.empty.insert "mood" "calm"⟩, .ofEntity ⟨2⟩]

/-- The stray arrives when it is told to, before the second tick. -/
def strayScripted : Driver Script :=
  scripted (((Script.ofSeed 7).setResult "walk" .success).setOverride ⟨2⟩ "walk" .running)
    fun n => if n = 1 then [.override ⟨2⟩ "walk" .success] else []

theorem certain_openGate : openGate.Certain := by
  intro id leaf hleaf
  match id with
  | 0 => exact nomatch hleaf
  | 1 =>
    cases hleaf
    show ¬ ((0 : Float) < 1 ∧ (1 : Float) < 1)
    decide
  | 2 => exact nomatch hleaf
  | 3 => cases hleaf; trivial
  | 4 => cases hleaf; trivial
  | n + 5 => exact nomatch hleaf

/-- Listed in the other order the two do the same. -/
theorem strayDeer_reordered :
    let after := strayScripted.nth tick (start calmAndStray openGate .all)
    let after' := strayScripted.nth tick (start calmAndStray.reverse openGate .all)
    (after' 0).1.status = some .running ∧ (after' 1).1.status = some .success ∧
      (after' 1).1.forActor ⟨2⟩ = [⟨4, ⟨2⟩, .success⟩] ∧
      (after' 1).2.1.members = [⟨2⟩, ⟨1⟩] ∧ (after 1).2.1.actors.Perm (after' 1).2.1.actors := by
  have hdistinct : (calmAndStray.map (·.entity)).Nodup := by decide
  have hperm : calmAndStray.Perm calmAndStray.reverse := (List.reverse_perm _).symm
  obtain ⟨hstatus, -⟩ := order_irrelevant _ _ certain_openGate hdistinct hperm .all 0
  obtain ⟨hstatus', -, hdone, ⟨-, hmembers⟩, hactors⟩ :=
    order_irrelevant _ _ certain_openGate hdistinct hperm .all 1
  refine ⟨hstatus.symm.trans ?_, hstatus'.symm.trans ?_, (hdone ⟨2⟩).symm.trans ?_, hmembers,
    hactors⟩ <;> decide

end CollectiveRun

end Herd
