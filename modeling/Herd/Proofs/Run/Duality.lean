import Herd.Proofs.Run.Interchange

/-!
# De Morgan's laws

A sequence goes on after success and a selector after failure, and otherwise they are the same. So
an inverter around either stands for the other with an inverter around each child: where the one
goes on, the other does. What is in progress is the same child, and only the inverter is found at
another place (`Progress.dual`), around the composite or around the child.
-/

namespace Herd

universe u

variable {σ : Type u}

/-- The state of an inverter around a sequence or a selector, as that of a sequence or a selector of
inverters. -/
def Progress.dual : Progress → Progress
  | .inverter (.ordered index q) => .ordered index (.inverter q)
  -- no other state is that of an inverter around one of the two
  | _ => .leaf

/-- The answer of an inverter whose child gives this one. -/
def Answer.inverted : Answer Progress → Answer Progress
  | done b => done !b
  | running q => running (.inverter q)

namespace Machine

/-- An inverter turns the answer around, and leaves the progress alone. -/
theorem inverted_eq (f : Machine σ) (p : Option Progress) (x : σ) :
    inverted f p x = Prod.map Answer.inverted id (f p x) := by
  rw [inverted]
  rcases f p x with ⟨_ | _, _⟩ <;> rfl

/-- An inverter in progress has its child in progress. -/
theorem decorated_inverter (f : Machine σ) (p : Option Progress) (x : σ) :
    decorated f .inverter (p.map .inverter) x = Prod.map Answer.inverted id (f p x) := by
  cases p <;> exact inverted_eq f _ x

/-- Children under inverters, which go on where the children themselves do. -/
theorem ordered_dual (goOn : Bool) (fs : List (Machine σ)) : ∀ k p x,
    ordered (!goOn) k (fs.map fun f => decorated f .inverter) (p.map .inverter) x =
      Prod.map (fun a => a.inverted.map Progress.dual) id (ordered goOn k fs p x) := by
  induction fs with
  | nil => exact fun k p x => rfl
  | cons f fs ih =>
    intro k p x
    rw [List.map_cons, ordered, ordered, decorated_inverter]
    rcases f p x with ⟨b | q, y⟩
    · by_cases hb : b = goOn
      · simp only [Prod.map, Answer.inverted, hb, if_true]
        exact ih (k + 1) none y
      · have hnot : ¬ (!b) = !goOn := fun h => hb (Bool.not_inj h)
        simp only [Prod.map, Answer.inverted, if_neg hb, if_neg hnot]
        rfl
    · rfl

/-- An inverted sequence goes on as a selector of inverted children does, and the other way round.
-/
theorem resumed_dual (goOn : Bool) (fs : List (Machine σ)) :
    (decorated (resumed goOn fs) .inverter).Through Progress.dual
      (resumed (!goOn) (fs.map fun f => decorated f .inverter)) := by
  -- a state that is not one of the composite's counts as none
  have hidle : ∀ {p : Option Progress} {x : σ}, resumed goOn fs p x = ordered goOn 0 fs none x →
      ordered (!goOn) 0 (fs.map fun f => decorated f .inverter) none x =
        Prod.map (Answer.map Progress.dual) id (inverted (resumed goOn fs) p x) := by
    intro p x h
    rw [inverted_eq, h, Prod.map_map]
    exact ordered_dual goOn fs 0 none x
  intro p x
  match p with
  | some (.inverter (.ordered index q)) =>
    simp only [Option.map, Progress.dual, resumed, decorated, inverted_eq, ← List.map_drop]
    rw [Prod.map_map]
    exact ordered_dual goOn (fs.drop index) index (some q) x
  | some (.inverter .leaf) | some (.inverter (.parallel _)) | some (.inverter (.repeated _ _))
  | some (.inverter (.timeout _ _)) | some (.inverter (.inverter _))
  | some (.inverter (.untilFail _)) => exact hidle rfl
  | none | some .leaf | some (.ordered _ _) | some (.parallel _) | some (.repeated _ _)
  | some (.timeout _ _) | some (.untilFail _) => exact hidle rfl

end Machine

/-- The machines of inverted siblings are those of the siblings, inverted. -/
theorem machines_inverted (ask : Leaf → σ → Status × σ) (cs : List Node) : ∀ i j : NodeId,
    machines (fun _ => ask) (cs.map (.decorated .inverter)) i =
      (machines (fun _ => ask) cs j).map fun f => .decorated f .inverter := by
  induction cs with
  | nil => exact fun i j => rfl
  | cons c cs ih =>
    intro i j
    rw [List.map_cons, machines, machines, List.map_cons, machine,
      machine_placeless ask c (i + 1) j, ih _ (j + c.size)]

namespace Node

/-- An inverter around a sequence, and a selector of inverters. -/
theorem interchangeable_sequence (cs : List Node) :
    Interchangeable.{u} (.decorated .inverter (.sequence cs))
      (.selector (cs.map (.decorated .inverter))) := by
  refine ⟨Progress.dual, fun ask i j => ?_⟩
  rw [machine, machine, machine, machines_inverted ask cs (j + 1) (i + 1 + 1)]
  exact Machine.resumed_dual true _

/-- An inverter around a selector, and a sequence of inverters. -/
theorem interchangeable_selector (cs : List Node) :
    Interchangeable.{u} (.decorated .inverter (.selector cs))
      (.sequence (cs.map (.decorated .inverter))) := by
  refine ⟨Progress.dual, fun ask i j => ?_⟩
  rw [machine, machine, machine, machines_inverted ask cs (j + 1) (i + 1 + 1)]
  exact Machine.resumed_dual false _

/-- **De Morgan's laws.** At any place of any tree, an inverter around a sequence shows the same as
a selector of inverters, and an inverter around a selector the same as a sequence of inverters:
whoever runs the two trees, whatever the handler does and happens to it between ticks, in every tick
they have the same status, make the same calls of the handler with the same answers, and leave the
actor with the same blackboard. -/
theorem deMorgan (C : Context) (cs : List Node) (id : ResourceId) (actor : Actor) (d : Driver σ)
    (n : Nat) :
    Run.SameConduct d
        (.start actor ⟨id, C.plug (.decorated .inverter (.sequence cs))⟩)
        (.start actor ⟨id, C.plug (.selector (cs.map (.decorated .inverter)))⟩) n ∧
      Run.SameConduct d
        (.start actor ⟨id, C.plug (.decorated .inverter (.selector cs))⟩)
        (.start actor ⟨id, C.plug (.sequence (cs.map (.decorated .inverter)))⟩) n :=
  ⟨(interchangeable_plug (interchangeable_sequence cs) C).sameConduct id actor d n,
    (interchangeable_plug (interchangeable_selector cs) C).sameConduct id actor d n⟩

/-- The notes of the two are at different addresses. -/
example :
    let h : ActionHandler Unit := ⟨fun a name x =>
        (if name = "stalk" then .success else .running, a, x),
      fun _ _ x => (false, x), fun _ _ x => (false, x)⟩
    let active (root : Node) : Option NodeId :=
      ((Run.start (.ofEntity ⟨1⟩) ⟨⟨none, "hunt"⟩, root⟩).tick h ()).2.1.state.active
    let acts := [Node.leaf (.action "stalk"), .leaf (.action "leap")]
    active (.decorated .inverter (.sequence acts)) = some 3 ∧
      active (.selector (acts.map (.decorated .inverter))) = some 4 := by
  decide

end Node

end Herd
