import Herd.Proofs.Group.Footprint
import Herd.Proofs.Group.Turn
import Herd.Proofs.World.Population

/-!
# Broadcasts of speed

In a population it is settled beforehand what a broadcast of speed comes to. A member that does not
move is skipped, one that moves but is marked fails, and every other member gets the speed
(`Population.fst_turn_eq`, `Population.get?_turn`). So the report is given by the members and the
population that there was (`Population.speedTally`), and `ExactBroadcast` says what has become of
the population.

A broadcast leaves who moves and who is marked as it was. So after another broadcast to the same
members it is exact from the first population on (`ExactBroadcast.after`), and since nothing is left
open (`ExactBroadcast.unique`) the last speed is the one that counts.
-/

namespace Herd

open EntityStore LawfulStore SteadyStore

namespace Population

variable {e : EntityId} {p : Population}

/-! ## Turns -/

/-- The entity has movement. -/
def moves (p : Population) (e : EntityId) : Bool :=
  (get? e .characterMovement p : Option CharacterMovement).isSome

/-- The entity is there, has movement, and may be written. -/
def takesSpeed (p : Population) (e : EntityId) : Bool :=
  p.contains e && p.moves e && e ∉ p.readOnly

/-- What a broadcast of speed to a list of entities tallies, each list in their order. -/
def speedTally (p : Population) (es : List EntityId) : Tally where
  affected := es.filter p.takesSpeed
  skipped := (es.filter fun e => !p.moves e).map fun e => (e, .missingComponent .characterMovement)
  failures := (es.filter fun e => p.moves e && e ∈ p.readOnly).map fun e =>
    (e, (StoreFault.rejected e readOnlyReason).toFault)

theorem contains_of_moves (h : p.moves e = true) : p.contains e = true := by
  obtain ⟨movement, hmovement⟩ := Option.isSome_iff_exists.mp h
  exact contains_of_get? hmovement

/-- A mark is all that keeps an entity that moves from taking a speed. -/
theorem takesSpeed_eq (p : Population) (e : EntityId) :
    p.takesSpeed e = (p.moves e && e ∉ p.readOnly) := by
  cases h : p.moves e with
  | false => rw [takesSpeed, h, Bool.and_false, Bool.false_and]
  | true => rw [takesSpeed, h, contains_of_moves h, Bool.and_self]

/-- The tally of a list is that of its entities, one after another. -/
theorem each_speedTally (p : Population) (es : List EntityId) :
    Tally.each (fun e => p.speedTally [e]) es = p.speedTally es := by
  induction es with
  | nil => rfl
  | cons d rest ih =>
    rw [Tally.each, ih]
    refine Tally.ext ?_ ?_ ?_
    · exact (List.filter_append [d] rest).symm
    · show List.map _ _ ++ List.map _ _ = List.map _ _
      rw [← List.map_append, ← List.filter_append, List.singleton_append]
    · show List.map _ _ ++ List.map _ _ = List.map _ _
      rw [← List.map_append, ← List.filter_append, List.singleton_append]

section Turn

variable (speed : Float32)

/-- An entity that does not move is skipped, marked or not. -/
theorem turn_of_still (h : p.moves e = false) :
    Speed.turn speed e p = (.skip e (.missingComponent .characterMovement), p) :=
  Speed.turn_of_none speed (by simpa [moves] using h)

theorem turn_of_marked (h : p.moves e = true) (hmark : e ∈ p.readOnly) :
    Speed.turn speed e p = (.fail e (StoreFault.rejected e readOnlyReason).toFault, p) := by
  obtain ⟨movement, hmovement⟩ := Option.isSome_iff_exists.mp h
  rw [Speed.turn_of_some speed hmovement]
  exact saveComponent_of_refused _ _ (refusal_of_mem_readOnly hmark _)

theorem turn_of_unmarked (h : p.moves e = true) (hmark : e ∉ p.readOnly) :
    ∃ p', Speed.turn speed e p = (.affect e, p') ∧
      get? e .characterMovement p' = some (⟨speed⟩ : CharacterMovement) := by
  obtain ⟨movement, hmovement⟩ := Option.isSome_iff_exists.mp h
  let fast : ComponentKind.Payload .characterMovement := CharacterMovement.mk speed
  obtain ⟨p', hp', hw⟩ := saveComponent_of_admitted (.affect e) fast
    (refusal_of_not_mem_readOnly hmovement hmark _)
  exact ⟨p', (Speed.turn_of_some speed hmovement).trans hp', hw.written⟩

/-- What a turn tallies. -/
theorem fst_turn_eq (e : EntityId) (p : Population) :
    (Speed.turn speed e p).1 = p.speedTally [e] := by
  cases hmoves : p.moves e with
  | false =>
    rw [turn_of_still speed hmoves]
    simp [speedTally, takesSpeed_eq, hmoves, Tally.skip]
  | true =>
    by_cases hmark : e ∈ p.readOnly
    · rw [turn_of_marked speed hmoves hmark]
      simp [speedTally, takesSpeed_eq, hmoves, hmark, Tally.fail]
    · obtain ⟨p', hp', -⟩ := turn_of_unmarked speed hmoves hmark
      rw [hp']
      simp [speedTally, takesSpeed_eq, hmoves, hmark, Tally.affect]

/-- What movement an entity has after its turn. -/
theorem get?_turn (e : EntityId) (p : Population) :
    get? e .characterMovement (Speed.turn speed e p).2 =
      if p.takesSpeed e then some (⟨speed⟩ : CharacterMovement)
      else get? e .characterMovement p := by
  cases hmoves : p.moves e with
  | false =>
    rw [turn_of_still speed hmoves]
    simp [takesSpeed_eq, hmoves]
  | true =>
    by_cases hmark : e ∈ p.readOnly
    · rw [turn_of_marked speed hmoves hmark]
      simp [takesSpeed_eq, hmark]
    · obtain ⟨p', hp', hwritten⟩ := turn_of_unmarked speed hmoves hmark
      rw [hp', hwritten]
      simp [takesSpeed_eq, hmoves, hmark]

end Turn

end Population

/-! ## Broadcasts -/

open Population

/-- A broadcast of speed to the members of a group, exactly: the report `r` of it, and the
population `q` that it makes of `p`. -/
structure ExactBroadcast (label : String) (members : List EntityId) (speed : Float32) (r : Report)
    (p q : Population) : Prop where
  report : r = .ofTally .propagateSpeed label (p.speedTally members)
  movement : ∀ e, get? e .characterMovement q =
    if e ∈ r.affected then some (⟨speed⟩ : CharacterMovement) else get? e .characterMovement p
  components : ∀ e kind, kind ≠ .characterMovement →
    (get? e kind q : Option kind.Payload) = get? e kind p
  roll : SameRoll p q

namespace ExactBroadcast

variable {label : String} {members : List EntityId} {speed speed' : Float32} {r r' : Report}
  {p q t : Population} {e : EntityId}

/-- The members that take the speed are affected, and no one else. -/
theorem mem_affected (h : ExactBroadcast label members speed r p q) :
    e ∈ r.affected ↔ e ∈ members ∧ p.takesSpeed e = true := by
  rw [h.report]
  exact List.mem_filter

theorem mem_skipped (h : ExactBroadcast label members speed r p q) :
    (e, .missingComponent .characterMovement) ∈ r.skipped ↔ e ∈ members ∧ p.moves e = false := by
  have hskipped : r.skipped =
      (members.filter fun e => !p.moves e).map (·, .missingComponent .characterMovement) := by
    rw [h.report]
    rfl
  simp [hskipped]

/-- Nobody comes to movement by a broadcast, and nobody loses it. -/
theorem moves_eq (h : ExactBroadcast label members speed r p q) : q.moves = p.moves := by
  funext e
  rw [moves, h.movement]
  split
  · next he =>
    have htakes := (h.mem_affected.mp he).2
    rw [takesSpeed_eq, Bool.and_eq_true] at htakes
    exact htakes.1.symm
  · rfl

/-- So a second broadcast tallies what the first one does. -/
theorem speedTally_eq (h : ExactBroadcast label members speed r p q) (es : List EntityId) :
    q.speedTally es = p.speedTally es := by
  have htakes : q.takesSpeed = p.takesSpeed := by
    funext e
    rw [takesSpeed_eq, takesSpeed_eq, h.moves_eq, h.roll.readOnly]
  rw [speedTally, speedTally, htakes, h.moves_eq, h.roll.readOnly]

/-- A broadcast after another to the same members is as exact as if it were the only one. -/
theorem after (h : ExactBroadcast label members speed r p q)
    (h' : ExactBroadcast label members speed' r' q t) :
    ExactBroadcast label members speed' r' p t := by
  have hreport : r' = .ofTally .propagateSpeed label (p.speedTally members) := by
    rw [h'.report, h.speedTally_eq]
  refine ⟨hreport, fun e => ?_, fun e kind hkind => ?_, h.roll.trans h'.roll⟩
  · rw [h'.movement, h.movement, hreport, h.report]
    -- whom the second broadcast does not reach the first did not reach either
    split <;> rfl
  · exact (h'.components e kind hkind).trans (h.components e kind hkind)

/-- There is one way only to broadcast exactly. -/
theorem unique (h : ExactBroadcast label members speed r p q)
    (h' : ExactBroadcast label members speed r' p t) : r = r' ∧ q = t := by
  have hreport : r = r' := h.report.trans h'.report.symm
  refine ⟨hreport, (h'.roll.symm.trans h.roll).eq_of_components fun e kind => ?_⟩
  by_cases hkind : kind = .characterMovement
  · subst hkind
    rw [h.movement, h'.movement, hreport]
  · exact (h.components e kind hkind).trans (h'.components e kind hkind).symm

end ExactBroadcast

namespace Coordinator

variable {c : Coordinator Population} {h : EntityId} {hive : Hivemind}

/-- **A broadcast of speed is exact.** -/
theorem exactBroadcast_propagateSpeed (hhive : c.hivemind? h = some hive) (speed : Float32) :
    ExactBroadcast hive.label hive.members speed (c.propagateSpeed h speed).1 c.store
      (c.propagateSpeed h speed).2.store := by
  have hreport : (c.propagateSpeed h speed).1 =
      .ofTally .propagateSpeed hive.label (c.store.speedTally hive.members) := by
    rw [propagateSpeed, hhive]
    show Report.ofTally _ _ (Tally.pass _ _ _).1 = _
    rw [Tally.fst_pass (Speed.turn_local speed) hive.distinct, ← each_speedTally]
    simp only [fst_turn_eq]
  have hwritten := c.propagateSpeed_written h speed
  refine ⟨hreport, fun e => ?_, fun e kind hkind => hwritten.get?_eq hkind,
    sameRoll_of_written hwritten⟩
  have haffected : e ∈ (c.propagateSpeed h speed).1.affected ↔
      e ∈ hive.members ∧ c.store.takesSpeed e = true := by
    rw [hreport]
    exact List.mem_filter
  by_cases he : e ∈ hive.members
  · have hagree := (c.propagateSpeed_of_mem speed hhive he).2
    rw [← hagree.components .characterMovement, get?_turn]
    simp only [haffected, he, true_and]
  · have hagree := (c.propagateSpeed_of_not_mem speed hhive he).2
    rw [← hagree.components .characterMovement, if_neg fun hmem => he (haffected.mp hmem).1]

/-- A broadcast changes nothing of a coordinator but its store. -/
theorem propagateSpeed_eq (c : Coordinator Population) (h : EntityId) (speed : Float32) :
    (c.propagateSpeed h speed).2 = { c with store := (c.propagateSpeed h speed).2.store } := by
  unfold propagateSpeed
  split <;> rfl

/-- A broadcast leaves the hivemind as it is. -/
theorem hivemind?_propagateSpeed (c : Coordinator Population) (h : EntityId) (speed : Float32) :
    (c.propagateSpeed h speed).2.hivemind? h = c.hivemind? h :=
  (c.propagateSpeed_written h speed).get?_eq nofun

/-- **A broadcast of speed is exact, and the last one counts.** The speed is set for the members of
the hivemind that are there, have movement and are not marked, and nothing else changes. The report
lists these, the members that do not move, and the members that move and are marked, each in the
order of the hivemind. The same broadcast again changes nothing and is reported alike, and another
one leaves nothing of the first. -/
theorem propagateSpeed_exact (hhive : c.hivemind? h = some hive) (speed : Float32) :
    ExactBroadcast hive.label hive.members speed (c.propagateSpeed h speed).1 c.store
        (c.propagateSpeed h speed).2.store ∧
      (c.propagateSpeed h speed).2 = { c with store := (c.propagateSpeed h speed).2.store } ∧
      (c.propagateSpeed h speed).2.propagateSpeed h speed = c.propagateSpeed h speed ∧
      ∀ speed', (c.propagateSpeed h speed).2.propagateSpeed h speed' =
        c.propagateSpeed h speed' := by
  have hlast : ∀ speed', (c.propagateSpeed h speed).2.propagateSpeed h speed' =
      c.propagateSpeed h speed' := by
    intro speed'
    have hfirst := exactBroadcast_propagateSpeed hhive speed
    have hsecond := exactBroadcast_propagateSpeed
      ((c.hivemind?_propagateSpeed h speed).trans hhive) speed'
    obtain ⟨hreport, hstore⟩ :=
      (hfirst.after hsecond).unique (exactBroadcast_propagateSpeed hhive speed')
    refine Prod.ext hreport ?_
    rw [propagateSpeed_eq, propagateSpeed_eq c h speed', hstore, propagateSpeed_eq c h speed]
  exact ⟨exactBroadcast_propagateSpeed hhive speed, c.propagateSpeed_eq h speed, hlast speed, hlast⟩

/-- Four deer in a hivemind, listed from the last to the first: one is gone, one moves and is
marked, one stands still and is marked, and one moves. -/
def mixedHerd : Population :=
  let deer := { EntityRecord.ofName "deer" with characterMovement := some .standard }
  let hive := Hivemind.ofMembers "herd" [⟨4⟩, ⟨3⟩, ⟨2⟩, ⟨1⟩]
  let records := [deer, deer, .ofName "deer", deer, { deer with hivemind := some hive }]
  let born := records.foldl (fun p record => (Population.spawn record p).2) Population.empty
  ((born.drop ⟨1⟩).setReadOnly ⟨2⟩ true).setReadOnly ⟨3⟩ true

/-- Only the last deer gets the speed, the third and the first are skipped, and the second fails;
that the speed was another in between makes no difference. -/
theorem mixedHerd_broadcast :
    let c : Coordinator Population := ⟨mixedHerd, .empty, .standard, .empty, 0⟩
    let r := (c.propagateSpeed ⟨5⟩ 2).1
    r.affected = [⟨4⟩] ∧ r.skipped.map (·.1) = [⟨3⟩, ⟨1⟩] ∧ r.failures.map (·.1) = [⟨2⟩] ∧
      get? ⟨4⟩ .characterMovement (c.propagateSpeed ⟨5⟩ 2).2.store =
        some (⟨2⟩ : CharacterMovement) ∧
      (c.propagateSpeed ⟨5⟩ 3).2.propagateSpeed ⟨5⟩ 2 = c.propagateSpeed ⟨5⟩ 2 := by
  intro c r
  have hhive : c.hivemind? ⟨5⟩ = some (.ofMembers "herd" [⟨4⟩, ⟨3⟩, ⟨2⟩, ⟨1⟩]) := by rfl
  obtain ⟨hexact, -, -, -⟩ := propagateSpeed_exact hhive 2
  obtain ⟨-, -, -, hlast⟩ := propagateSpeed_exact hhive 3
  have hreport : r = _ := hexact.report
  have haffected : r.affected = [⟨4⟩] := by rw [hreport]; decide
  refine ⟨haffected, by rw [hreport]; decide, by rw [hreport]; decide, ?_, hlast 2⟩
  rw [hexact.movement, if_pos (by rw [haffected]; decide)]

end Coordinator

end Herd
