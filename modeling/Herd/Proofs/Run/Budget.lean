import Herd.Proofs.Run.History

/-!
# What a timeout grants

A timeout notes the tick at which it was entered and subtracts that from the tick at hand. So its
budget is right only if it is evaluated in every tick from then on: whatever lies above must turn to
it each time. That is `Log.Met`, which holds of every node in progress.

`History.timeout_budget` puts together what follows: each evaluation of a timeout is `Budgeted`, a
note that is left has ticks to go, and a node in progress is turned to in the next tick, unless a
timeout above it expires.
-/

namespace Herd

universe u

namespace Evaluation

/-- How often the node was evaluated before, in this activation of it. -/
def spent (e : Evaluation) (pre : Log) : Nat := (pre.since e.id e.id).length

/-- The evaluation of a timeout keeps to its budget, in view of the log before it. -/
structure Budgeted (e : Evaluation) (ticks : Nat) (pre : Log) : Prop where
  spent_le : e.spent pre ≤ ticks
  spent_lt : e.spent pre < e.tick
  /-- The note dates the first evaluation, which is long enough ago and not in the future. -/
  note : e.note = if e.spent pre = 0 then none else some (.startedAt (e.tick - e.spent pre))
  /-- It was evaluated in each tick since. -/
  own : (pre.since e.id e.id).ticks = List.range' (e.tick - e.spent pre) (e.spent pre)
  /-- So was the child, but in this tick only if there is one to grant. -/
  child : (pre.since e.id (e.id + 1)).ticks =
    List.range' (e.tick - e.spent pre) (min (e.spent pre + 1) ticks)
  /-- In a tick that is granted it answers what the child does. -/
  granted : e.spent pre < ticks → ∃ (d : Evaluation) (rest : Log),
    pre.since e.id (e.id + 1) = d :: rest ∧ d.status = e.status ∧ rest.AllRunning
  /-- In the tick after those it fails, and the child was not done. -/
  expired : e.spent pre = ticks → e.status = .failure ∧ (pre.since e.id (e.id + 1)).AllRunning

variable {e : Evaluation} {ticks started : Nat} {pre : Log}

/-- A timeout that was evaluated in every tick since it was entered has spent as many ticks. -/
theorem Timed.spent_eq (h : e.Timed ticks pre started) : e.spent pre = e.tick - started := by
  have hlength := congrArg List.length h.own
  rwa [Log.length_ticks, List.length_range'] at hlength

theorem Timed.budgeted (h : e.Timed ticks pre started) : e.Budgeted ticks pre := by
  have hspent := h.spent_eq
  have hpos := h.pos
  have hle := h.le_tick
  have hstarted : e.tick - e.spent pre = started := by omega
  have hown := h.own
  rw [← hspent] at hown
  have hnote : e.note =
      if e.spent pre = 0 then none else some (.startedAt (e.tick - e.spent pre)) := by
    have hfirst : started = e.tick ↔ e.spent pre = 0 := by omega
    rw [h.note, hstarted]
    simp only [hfirst]
  rcases h.child with ⟨hleft, d, rest, hsince, hd, hstatus, hrest, hrunning⟩ |
    ⟨hover, hstatus, hticks, hrunning⟩
  · have hmin : min (e.spent pre + 1) ticks = e.spent pre + 1 := by omega
    refine ⟨by omega, by omega, hnote, hstarted ▸ hown, ?_,
      fun _ => ⟨d, rest, hsince, hstatus, hrunning⟩, fun h => by omega⟩
    rw [hsince, Log.ticks_cons, hrest, hd, hmin, hstarted, List.range'_1_concat, ← hspent,
      ← hstarted, Nat.sub_add_cancel (by omega)]
  · have hmin : min (e.spent pre + 1) ticks = e.spent pre := by omega
    refine ⟨by omega, by omega, hnote, hstarted ▸ hown, ?_, fun h => by omega,
      fun _ => ⟨hstatus, hrunning⟩⟩
    rw [hticks, hmin, hstarted, hspent]

end Evaluation

/-! ## Notes of timeouts -/

/-- Of the nodes in progress only a timeout dates a tick, and it has ticks to go. -/
theorem Underway.startedAt {r : Chronicle} {clock id started : Nat} {n : Node}
    (h : Underway r clock n id) (hnote : r.memory.find? id = some (.startedAt started)) :
    ∃ ticks c, n = .decorated (.timeout ticks) c ∧ 1 ≤ started ∧ started < clock ∧
      clock ≤ started + ticks := by
  cases n with
  | leaf l =>
    simp only [Underway, hnote] at h
    cases h.1
  | sequence cs =>
    simp only [Underway, hnote] at h
    obtain ⟨i, hcursor, -⟩ := h
    cases hcursor
  | selector cs =>
    simp only [Underway, hnote] at h
    obtain ⟨i, hcursor, -⟩ := h
    cases hcursor
  | parallel threshold cs =>
    simp only [Underway, hnote] at h
    obtain ⟨slots, hslots, -⟩ := h
    cases hslots
  | decorated d c =>
    cases d <;> simp only [Underway, hnote] at h
    case inverter => cases h.1
    case repeated =>
      obtain ⟨k, hiterations, -⟩ := h
      cases hiterations
    case untilFail => cases h.1
    case timeout ticks =>
      obtain ⟨started', hstarted, hbounds, -⟩ := h
      cases hstarted
      exact ⟨ticks, c, rfl, hbounds⟩

namespace RunState

variable {tree : BehaviorTree} {s : RunState} {h : Log}

/-- **A timeout grants its budget**, in every run over any tree with whatever leaves. Each of its
evaluations is the next of its activation, one a tick; the child is evaluated in the first `ticks`
of them, and the one after fails without it. A timeout that is in progress between two ticks has
ticks to go. And whatever is in progress is turned to in the next tick, except where a timeout above
it expires first. -/
theorem History.timeout_budget (hs : History.{u} tree s h) :
    (∀ (post : Log) (e : Evaluation) (pre : Log) (ticks : Nat) (c : Node), h = post ++ e :: pre →
      e.node = .decorated (.timeout ticks) c → e.Budgeted ticks pre) ∧
    (∀ (k : NodeId) (started : Nat), s.memory.find? k = some (.startedAt started) →
      ∃ ticks c, tree.node? k = some (.decorated (.timeout ticks) c) ∧ 1 ≤ started ∧
        started ≤ s.tickCount ∧ s.tickCount - started < ticks) ∧
    ∀ {σ : Type u} (leaf : LeafEvaluator σ) (x : σ) (a : Nat), h.Open a →
      Log.Met a h (s.logAfter tree leaf x h) := by
  refine ⟨fun post e pre ticks c hh hnode => ?_, fun k started hnote => ?_,
    fun leaf x a hopen => ?_⟩
  · subst hh
    have hsound := hs.sound
    simp only [Evaluation.Sound, hnode] at hsound
    obtain ⟨started, htimed⟩ := hsound
    exact htimed.budgeted
  · obtain ⟨n, hn⟩ := hs.recorded.exists_node? hnote
    rcases hs.stands hn with hblank | hunderway
    · have hnone := hblank.notes k (Nat.le_refl _) (Nat.lt_add_of_pos_right n.size_pos)
      cases hnone.symm.trans hnote
    · obtain ⟨ticks, c, rfl, hpos, hlt, hle⟩ := hunderway.startedAt hnote
      exact ⟨ticks, c, hn, hpos, by omega, by omega⟩
  · have hlt := hs.recorded.lt_size_of_open hopen
    exact (hs.recorded.attested leaf x).met a (Nat.zero_le a) (by omega) hopen

/-- A walk that is granted two ticks and never arrives: the third tick fails without it. -/
theorem slowWalk_expires :
    let tree : BehaviorTree :=
      ⟨⟨none, "patrol"⟩, .decorated (.timeout 2) (.leaf (.action "walk"))⟩
    let leaf : LeafEvaluator Unit := fun _ _ x => (.running, x)
    let tick : RunState → Log → Log := fun s h => s.logAfter tree leaf () h
    let s₁ := (RunState.fresh.step tree leaf ()).2.1
    let s₂ := (s₁.step tree leaf ()).2.1
    ∃ (e : Evaluation) (pre : Log), tick s₂ (tick s₁ (tick .fresh [])) = [] ++ e :: pre ∧
      e.tick = 3 ∧ e.spent pre = 2 ∧ e.status = .failure ∧ (pre.since 0 1).ticks = [1, 2] := by
  intro tree leaf tick s₁ s₂
  have hs : History.{0} tree _ (tick s₂ (tick s₁ (tick .fresh []))) :=
    .step (.step (.step .fresh leaf ()) leaf ()) leaf ()
  refine ⟨_, _, rfl, rfl, by decide, ?_⟩
  have hbudgeted := (History.timeout_budget hs).1 [] _ _ 2 _ rfl rfl
  exact ⟨(hbudgeted.expired (by decide)).1, hbudgeted.child.trans (by decide)⟩

end RunState

end Herd
