import Herd.Proofs.Json.Decoder
import Herd.Proofs.Resource.Id
import Herd.Proofs.Run.Refinement
import Herd.Proofs.Run.Unison
import Herd.Run.Codec

/-!
# Snapshots are read back

The written form of each part of a snapshot is read as that part: ids, actors with their
blackboards, notes, and run states, whose notes stand under their addresses in decimal. Tables are
written entry by entry and made again from their entries (`Table.ofList_entries`). So a snapshot is
read back as a whole (`Snapshot.ofJson_toJson`), if its id can be written and its addresses have 64
bits.

The notes of a run are at addresses of its tree (`Driver.found_start`), so the snapshot of a run can
always be taken up again from what was written (`Snapshot.survives_writing`).
-/

namespace Herd

open Json (Value Decoder)

/-! ## Tables -/

namespace Table

variable {κ ν : Type} [Ord κ] [Std.TransOrd κ] [Std.LawfulEqOrd κ]

omit [Std.LawfulEqOrd κ] in
/-- An entry with a key above all others goes to the end. -/
theorem insertIn_of_forall_lt {k : κ} {x : ν} {l : List (κ × ν)}
    (h : ∀ e ∈ l, compare e.1 k = .lt) : insertIn k x l = l ++ [(k, x)] := by
  induction l with
  | nil => rfl
  | cons e rest ih =>
    obtain ⟨he, hrest⟩ := List.forall_mem_cons.mp h
    rw [insertIn, Std.OrientedCmp.gt_of_lt he]
    exact congrArg (e :: ·) (ih hrest)

/-- A table is made again from its entries. -/
theorem ofList_entries (t : Table κ ν) : ofList t.entries = t := by
  have hfold : ∀ (l : List (κ × ν)) (a : Table κ ν), Ascending (a.entries ++ l) →
      (l.foldl (fun t e => t.insert e.1 e.2) a).entries = a.entries ++ l := by
    intro l
    induction l with
    | nil => exact fun a _ => (List.append_nil _).symm
    | cons e rest ih =>
      intro a h
      have hlast : ∀ e' ∈ a.entries, compare e'.1 e.1 = .lt :=
        fun e' he' => (List.pairwise_append.mp h).2.2 e' he' e List.mem_cons_self
      have hinsert : (a.insert e.1 e.2).entries = a.entries ++ [e] := insertIn_of_forall_lt hlast
      rw [List.append_cons] at h ⊢
      rw [← hinsert] at h ⊢
      exact ih (a.insert e.1 e.2) h
  have hext : ∀ {a b : Table κ ν}, a.entries = b.entries → a = b := by
    rintro ⟨_, _⟩ ⟨_, _⟩ rfl
    rfl
  exact hext (hfold t.entries empty t.ascending)

end Table

/-! ## Parts of a snapshot -/

theorem EntityId.ofJson_toJson (room : Nat) (e : EntityId) : ofJson room e.toJson = some e := rfl

theorem Status.ofJson_toJson (room : Nat) (s : Status) : ofJson room s.toJson = some s := by
  cases s <;> rfl

/-- A well-formed id is read back. -/
theorem ResourceId.WellFormed.ofJson_toJson {id : ResourceId} (h : id.WellFormed) (room : Nat) :
    ofJson room id.toJson = some id := by
  show (parse id.text).toOption = some id
  rw [h.parse_text]
  rfl

theorem Actor.ofJson_toJson (room : Nat) (a : Actor) : ofJson (room + 2) a.toJson = some a := by
  have hblackboard : Decoder.members Json.Key.text .text (room + 1)
      (.ofMembers (a.blackboard.entries.map fun e => (e.1, .ofString e.2))) =
        some a.blackboard.entries :=
    Decoder.members_ofMembers id Value.ofString (fun _ _ => rfl) fun _ _ => rfl
  have hfields : Decoder.fields ["entity", "blackboard"] (room + 2) a.toJson =
      some ⟨room + 1, false, [("entity", some a.entity.toJson), ("blackboard",
        some (.ofMembers (a.blackboard.entries.map fun e => (e.1, .ofString e.2))))]⟩ :=
    Decoder.fields_ofMembers (show ["entity", "blackboard"].Nodup by decide) rfl (room + 1)
  simp [ofJson, hfields, Decoder.Fields.required, Decoder.Fields.slot, List.lookup_cons,
    hblackboard, EntityId.ofJson_toJson, Table.ofList_entries]

theorem NodeMemory.ofJson_toJson (room : Nat) (m : NodeMemory) :
    ofJson (room + 2) m.toJson = some m := by
  cases m with
  | finished slots =>
    have hslots : Decoder.list (Decoder.nullable Status.ofJson) (room + 1)
        (.array (slots.map (.ofOption Status.toJson))) = some slots := by
      refine Decoder.list_array fun slot _ => ?_
      exact Decoder.nullable_ofOption (fun s _ => Status.ofJson_toJson room s) fun s => nofun
    simp [ofJson, toJson, Value.tagged, Value.ofMembers, Decoder.tagged, Decoder.Tagged.payload,
      hslots]
  | _ => rfl

/-- The addresses in the memory of a run are those of a tree of at most `size` nodes. -/
def RunState.Within (size : Nat) (s : RunState) : Prop :=
  ∀ k : Nat, size ≤ k → s.memory.find? k = none

/-- A run state is read back if the addresses it mentions fit a number. -/
theorem RunState.ofJson_toJson (room : Nat) {s : RunState}
    (h : s.Within Json.Number.significandBound) : ofJson (room + 4) s.toJson = some s := by
  have hmemory : Decoder.members Decoder.naturalKey NodeMemory.ofJson (room + 3)
      (.ofMembers (s.memory.entries.map fun e => (toString e.1, e.2.toJson))) =
        some s.memory.entries := by
    refine Decoder.members_ofMembers toString NodeMemory.toJson (fun e he => ?_) fun e _ => ?_
    · refine Decoder.naturalKey_toString (Nat.lt_of_not_le fun hle => ?_)
      exact nomatch (h e.1 hle).symm.trans (Table.find?_eq_some_iff.mpr he)
    · exact NodeMemory.ofJson_toJson room e.2
  have hactive : Decoder.nullable .natural (room + 3) (.ofOption .ofNat s.active) = some s.active :=
    Decoder.nullable_ofOption (fun _ _ => rfl) fun _ => nofun
  have hlast : Decoder.nullable Status.ofJson (room + 3) (.ofOption Status.toJson s.lastStatus) =
      some s.lastStatus :=
    Decoder.nullable_ofOption (fun x _ => Status.ofJson_toJson _ x) fun _ => nofun
  have hfields : Decoder.fields ["tick_count", "active", "last_status", "memory"] (room + 4)
      s.toJson = some ⟨room + 3, false, [("tick_count", some (.ofNat s.tickCount)),
        ("active", some (.ofOption .ofNat s.active)),
        ("last_status", some (.ofOption Status.toJson s.lastStatus)), ("memory",
        some (.ofMembers (s.memory.entries.map fun e => (toString e.1, e.2.toJson))))]⟩ :=
    Decoder.fields_ofMembers
      (show ["tick_count", "active", "last_status", "memory"].Nodup by decide) rfl (room + 3)
  simp [ofJson, hfields, Decoder.Fields.required, Decoder.Fields.optional, Decoder.Fields.slot,
    List.lookup_cons, hmemory, hactive, hlast, Table.ofList_entries, -Nat.toString_eq_repr]

/-- A snapshot is read back if its tree is named by a well-formed id. -/
theorem Snapshot.ofJson_toJson (room : Nat) {s : Snapshot} (hid : s.tree.WellFormed)
    (hstate : s.state.Within Json.Number.significandBound) :
    ofJson (room + 5) s.toJson = some s := by
  have hfields : Decoder.fields ["tree", "actor", "state"] (room + 5) s.toJson =
      some ⟨room + 4, false, [("tree", some s.tree.toJson), ("actor", some s.actor.toJson),
        ("state", some s.state.toJson)]⟩ :=
    Decoder.fields_ofMembers (show ["tree", "actor", "state"].Nodup by decide) rfl (room + 4)
  simp [ofJson, hfields, Decoder.Fields.required, Decoder.Fields.slot, List.lookup_cons,
    hid.ofJson_toJson, Actor.ofJson_toJson, RunState.ofJson_toJson room hstate]

/-! ## Runs -/

/-- A state of a tree mentions addresses within it only. -/
theorem RunState.Represents.within {s : RunState} {root : Node} {p : Option Progress}
    (h : s.Represents root p) {size : Nat} (hsize : root.size ≤ size) : s.Within size :=
  fun k hk => h.beyond k (Nat.le_trans hsize hk)

universe u v

/-- A run is over its tree however often it is ticked, in a state that the tree can be in. -/
theorem Driver.found_start {σ : Type u} (d : Driver σ) (actor : Actor) (tree : BehaviorTree)
    (n : Nat) :
    let r := (d.found Run.tick (.start actor tree) n).1
    r.tree = tree ∧ ∃ p, r.state.Represents tree.root p := by
  induction n with
  | zero => exact ⟨rfl, none, RunState.represents_fresh tree.root⟩
  | succ n ih =>
    obtain ⟨htree, p, hp⟩ := ih
    rw [d.found_succ, Driver.nth, Run.tick_eq, htree]
    exact ⟨rfl, _, (hp.step _ _).2.2⟩

/-- **A snapshot survives being written, and its run goes on as if nothing had been.** A snapshot
whose tree has an id that can be written, and whose addresses have 64 bits, is read back as it was,
in any place with room for its five levels.

So wherever ticks have brought a run of a tree that fits into memory, what is read back of its
snapshot is taken up over the tree; and whatever drives the runs from there on, the one that was
taken up gives the answers of the one that was not, asks the same leaves, and has the same state and
the same actor after each tick. Taken up, the snapshot is still what it was. -/
theorem Snapshot.survives_writing :
    (∀ s : Snapshot, s.tree.WellFormed → s.state.Within Json.Number.significandBound →
      ∀ room, ofJson (room + 5) s.toJson = some s) ∧
    ∀ (actor : Actor) (tree : BehaviorTree), tree.id.WellFormed →
      tree.root.size ≤ Json.Number.significandBound →
      ∀ {σ : Type u} (past : Driver σ) (m : Nat),
        let r := (past.found Run.tick (.start actor tree) m).1
        ∃ s r', ofJson Decoder.depthLimit r.snapshot.toJson = some s ∧ s = r.snapshot ∧
          Run.resume tree s = .ok r' ∧ r'.snapshot = s ∧
          ∀ {τ : Type v} (d : Driver τ) (n : Nat),
            let given := d.found Run.tick r n
            let given' := d.found Run.tick r' n
            let tick := d.nth Run.tick r n
            let tick' := d.nth Run.tick r' n
            tick'.1 = tick.1 ∧
              given'.1.exchanges (d.handler n) given'.2 = given.1.exchanges (d.handler n) given.2 ∧
              tick'.2.1.state = tick.2.1.state ∧ tick'.2.1.actor = tick.2.1.actor := by
  refine ⟨fun s hid hstate room => ofJson_toJson room hid hstate, ?_⟩
  intro actor tree hid hsize σ past m r
  obtain ⟨htree, p, hp⟩ := past.found_start actor tree m
  have hid' : r.snapshot.tree.WellFormed := by
    show r.tree.id.WellFormed
    rwa [htree]
  have hread : ofJson Decoder.depthLimit r.snapshot.toJson = some r.snapshot :=
    ofJson_toJson 122 hid' (hp.within hsize)
  have hresume : Run.resume tree r.snapshot = .ok r := by
    have h := r.resume_snapshot
    rwa [htree] at h
  exact ⟨r.snapshot, r, hread, rfl, hresume, rfl, fun d n => ⟨rfl, rfl, rfl, rfl⟩⟩

/-- Three guards on patrol. -/
def nightWatch : BehaviorTree :=
  ⟨⟨some "Herd", "NightWatch"⟩, .parallel 3 [
    .sequence [.leaf (.action "look"), .leaf (.action "walk")],
    .decorated (.timeout 9) (.leaf (.action "walk")),
    .leaf (.action "look")]⟩

/-- A snapshot with the last address there is and an odd blackboard is read back; and so is that of
a guard in the second round, which walks on. -/
theorem nightWatch_survives :
    let handler : ActionHandler Unit :=
      ⟨fun a name x => (if name = "walk" then .running else .success,
        { a with blackboard := a.blackboard.insert "last" name }, x), fun _ _ x => (false, x),
        fun _ _ x => (false, x)⟩
    let past : Driver Unit := ⟨fun _ => handler, fun _ x => x, ()⟩
    let r := (past.found Run.tick (.start (.ofEntity ⟨7⟩) nightWatch) 2).1
    let odd : Snapshot := ⟨⟨none, "night WATCH"⟩, ⟨⟨0⟩, Table.empty.insert "" ":\"0"⟩,
      ⟨3, some 4, some .failure, Table.empty.insert 18446744073709551615 (.iterations 5)⟩⟩
    Snapshot.ofJson Decoder.depthLimit odd.toJson = some odd ∧
    r.state.memory.entries =
      [(0, .finished [none, none, some .success]), (1, .cursor 1), (4, .startedAt 1)] ∧
    ∃ s r', Snapshot.ofJson Decoder.depthLimit r.snapshot.toJson = some s ∧
      s.tree.text = "Herd:NightWatch" ∧ Run.resume nightWatch s = .ok r' ∧
      (r'.tick handler ()).1 = .running := by
  intro handler past r odd
  have hodd : odd.state.Within Json.Number.significandBound := by
    intro k hk
    have hne : k ≠ 18446744073709551615 := by
      rintro rfl
      exact absurd hk (by decide)
    exact Table.find?_insert_of_ne Table.empty hne _
  have hid : nightWatch.id.WellFormed :=
    ⟨by decide, by decide, by rintro _ ⟨⟩; decide, by rintro _ ⟨⟩; decide⟩
  obtain ⟨hread, hruns⟩ := Snapshot.survives_writing.{0, 0}
  obtain ⟨s, r', hs, hsnapshot, hresume, -, hgoes⟩ :=
    hruns (.ofEntity ⟨7⟩) nightWatch hid (by decide) past 2
  refine ⟨hread odd ⟨by decide, by decide, nofun, nofun⟩ hodd 122, by decide, s, r', hs, ?_,
    hresume, ?_⟩
  · rw [hsnapshot]
    decide
  · exact (hgoes past 0).1.trans (by decide)

end Herd
