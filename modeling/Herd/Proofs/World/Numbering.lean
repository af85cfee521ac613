import Herd.Proofs.Group.Turn
import Herd.Proofs.Hive.Broadcast
import Herd.Proofs.World.Event
import Herd.Proofs.World.Membership

/-!
# Numbers are never given twice

Each event gives out new numbers or none, and `Issues` says which: they ascend from the last number
that was given out before, and an entity that has an older number was there before. So does a whole
history (`Event.issues_after`), whatever is destroyed in it.

A hivemind lists numbers, which may outlive the entities they were given to. An event keeps the
hivemind of an entity or drops it, unless a host saves another one over it
(`Event.hivemind?_apply`). Since no entity comes to an old number, what a hivemind addresses at any
later time is what is left of the group that it was made of, as long as no save that is admitted
changes the list (`Coordinator.hivemind_addresses_old`). Nothing in a population keeps a host from
such a save (`Coordinator.not_only_old_addressed`).
-/

namespace Herd

open EntityStore LawfulStore SteadyStore

universe u

/-! ## Numbers given out -/

/-- From `p` to `q` the entities `ids` were given new numbers, and nothing came to an old one. -/
structure Population.Issues (ids : List EntityId) (p q : Population) : Prop where
  ascending : ids.Pairwise fun a b => a.raw < b.raw
  new : ∀ e ∈ ids, p.lastId < e.raw ∧ e.raw ≤ q.lastId
  lastId_le : p.lastId ≤ q.lastId
  old : ∀ e : EntityId, e.raw ≤ p.lastId → q.contains e = true → p.contains e = true

namespace Population

variable {ids ids' : List EntityId} {p q r : Population}

theorem Issues.refl (p : Population) : Issues [] p p :=
  ⟨.nil, fun _ he => absurd he List.not_mem_nil, Nat.le_refl _, fun _ _ h => h⟩

/-- Numbers that are given out in two parts are given out in one. -/
theorem Issues.append (h₁ : Issues ids p q) (h₂ : Issues ids' q r) : Issues (ids ++ ids') p r := by
  refine ⟨List.pairwise_append.mpr ⟨h₁.ascending, h₂.ascending, fun a ha b hb => ?_⟩,
    fun e he => ?_, Nat.le_trans h₁.lastId_le h₂.lastId_le, fun e hle he => ?_⟩
  · exact Nat.lt_of_le_of_lt (h₁.new a ha).2 (h₂.new b hb).1
  · rcases List.mem_append.mp he with he | he
    · obtain ⟨hlt, hle⟩ := h₁.new e he
      exact ⟨hlt, Nat.le_trans hle h₂.lastId_le⟩
    · obtain ⟨hlt, hle⟩ := h₂.new e he
      exact ⟨Nat.lt_of_le_of_lt h₁.lastId_le hlt, hle⟩
  · exact h₁.old e hle (h₂.old e (Nat.le_trans hle h₁.lastId_le) he)

theorem SameRoll.contains_eq (h : SameRoll p q) (e : EntityId) : q.contains e = p.contains e := by
  have hsome := congrArg Option.isSome (h.names e)
  rwa [Option.isSome_map, Option.isSome_map] at hsome

/-- Where no entity is new, no number is given out. -/
theorem issues_nil (hlast : q.lastId = p.lastId)
    (hcontains : ∀ e, q.contains e = true → p.contains e = true) : Issues [] p q :=
  ⟨.nil, fun _ he => absurd he List.not_mem_nil, Nat.le_of_eq hlast.symm,
    fun e _ => hcontains e⟩

/-- Writes give out no number. -/
theorem SameRoll.issues (h : SameRoll p q) : Issues [] p q :=
  issues_nil h.lastId fun e he => (h.contains_eq e).symm.trans he

/-- An entity that is added gets the next number. -/
theorem issues_spawn (record : EntityRecord) (p : Population) :
    Issues [(p.spawn record).1] p (p.spawn record).2 := by
  refine ⟨List.pairwise_singleton _ _, fun e he => ?_, Nat.le_succ _, fun e hle he => ?_⟩
  · rw [List.mem_singleton.mp he]
    exact ⟨Nat.lt_succ_self _, Nat.le_refl _⟩
  · have hne : e ≠ ⟨p.lastId + 1⟩ := by
      rintro rfl
      exact absurd hle (Nat.not_succ_le_self _)
    exact (Table.contains_insert_of_ne _ hne record).symm.trans he

/-- A mark gives out no number, also one of a number that is not given out yet. -/
theorem issues_setReadOnly (e : EntityId) (mark : Bool) (p : Population) :
    Issues [] p (p.setReadOnly e mark) := by
  unfold setReadOnly
  split
  · split <;> exact issues_nil rfl fun _ he => he
  · exact issues_nil rfl fun _ he => he

theorem issues_destroy (d : EntityId) (p : Population) : Issues [] p (destroy d p).2 :=
  issues_nil rfl fun _ he => Table.contains_of_contains_erase he

theorem issues_destroyAll (es : List EntityId) :
    ∀ p : Population, Issues [] p (destroyAll es p).2 := by
  induction es with
  | nil => exact fun p => .refl p
  | cons d rest ih => exact fun p => (issues_destroy d p).append (ih (destroy d p).2)

end Population

/-! ## Operations of a coordinator -/

namespace Coordinator

open Population

variable (c : Coordinator Population)

/-- Making a hivemind gives out one number, also where the hivemind is refused. -/
theorem materializeHivemind_issues (label : String) :
    Issues [c.nextEntity] c.store (c.materializeHivemind label).2.store := by
  have hcreate : Issues [c.nextEntity] c.store
      (EntityStore.create hivemindEntityName c.store).2 := issues_spawn _ c.store
  unfold materializeHivemind
  split
  next entity store hstore =>
    rw [hstore] at hcreate
    have hstart : Written (fun _ _ => True) store store := .refl
    have hsave : Issues [] store
        (save entity .hivemind (Hivemind.ofMembers label (membersOf label store)) store).2 :=
      (sameRoll_of_written (hstart.save trivial _)).issues
    dsimp only
    split
    · next t hs =>
      rw [hs] at hsave
      exact hcreate.append hsave
    · next f t hs =>
      rw [hs] at hsave
      exact hcreate.append (hsave.append (issues_destroy entity t))

theorem teardown_issues : Issues [] c.store c.teardown.2.store :=
  (issues_destroyAll _ _).append (issues_destroyAll _ _)

/-- A teardown keeps a component or drops it. -/
theorem get?_teardown {e : EntityId} {kind : ComponentKind} :
    get? e kind c.teardown.2.store = get? e kind c.store ∨
      get? e kind c.teardown.2.store = none := by
  have hdestroy : ∀ (es : List EntityId) (p : Population),
      get? e kind (destroyAll es p).2 = get? e kind p ∨ get? e kind (destroyAll es p).2 = none := by
    intro es
    induction es with
    | nil => exact fun p => .inl rfl
    | cons d rest ih =>
      intro p
      rcases ih (destroy d p).2 with hrest | hrest
      · by_cases he : e = d
        · exact .inr (hrest.trans ((get?_destroy d p e kind).trans (if_pos he)))
        · exact .inl (hrest.trans ((get?_destroy d p e kind).trans (if_neg he)))
      · exact .inr hrest
  rcases hdestroy _ _ with htagged | htagged
  · exact (hdestroy (entitiesWith .hivemind c.store) c.store).imp htagged.trans htagged.trans
  · exact .inr htagged

end Coordinator

/-! ## Events -/

namespace Event

open Population

/-- The entities that an event gives numbers to: what is spawned or created, which includes the
entity of a new hivemind, whether or not it can carry one. -/
def issued (c : Coordinator Population) : Event.{u} → List EntityId
  | spawn record => [(c.store.spawn record).1]
  | create name => [(EntityStore.create name c.store).1]
  | materialize _ | scenario .synchronizeSpeed | scenario .collectiveBehavior =>
    [(EntityStore.create hivemindEntityName c.store).1]
  | _ => []

/-- The entities that events give numbers to, in order. -/
def issuedAlong (events : List Event.{u}) (c : Coordinator Population) : List EntityId :=
  account (fun c event ids => ids ++ event.issued c) events c []

variable {c : Coordinator Population}

theorem issues_of_written {allowed : EntityId → ComponentKind → Prop} {p : Population}
    (h : Written allowed c.store p) : Issues [] c.store p :=
  (sameRoll_of_written h).issues

/-- **Each event gives out new numbers or none**, and lets nothing come to an old one. -/
theorem issues_apply (event : Event.{u}) :
    Issues (event.issued c) c.store (event.apply c).store := by
  have hstart : Written (fun _ _ => True) c.store c.store := .refl
  cases event with
  | spawn record => exact issues_spawn record c.store
  | create name => exact issues_spawn (.ofName name) c.store
  | save entity kind component => exact issues_of_written (hstart.save trivial component)
  | remove entity kind => exact issues_of_written (hstart.remove trivial)
  | destroy entity => exact issues_destroy entity c.store
  | mark entity readOnly => exact issues_setReadOnly entity readOnly c.store
  | assign label treeName skinName =>
    exact issues_of_written (c.assignBehavior_written label treeName skinName)
  | recover label => exact issues_of_written (c.recoverBackup_written label)
  | materialize label => exact c.materializeHivemind_issues label
  | speed entity multiplier => exact issues_of_written (c.propagateSpeed_written entity multiplier)
  | collective entity treeName =>
    exact issues_of_written (c.assignCollective_written entity treeName)
  | teardown => exact c.teardown_issues
  | configure library settings =>
    rw [store_configure]
    exact .refl c.store
  | tick handler x entity => exact issues_of_written (tickBehavior_written handler entity x c.store)
  | tickCollective handler x entity =>
    exact issues_of_written (tickCollective_written handler entity x c.store)
  | scenario choice =>
    rw [apply_scenario]
    cases choice with
    | assignGroupBehavior => exact issues_of_written (c.assignBehavior_written _ _ _)
    | synchronizeSpeed =>
      exact (c.materializeHivemind_issues _).append
        (issues_of_written (Coordinator.propagateSpeed_written _ c.nextEntity _))
    | collectiveBehavior =>
      exact (c.materializeHivemind_issues _).append
        (issues_of_written (Coordinator.assignCollective_written _ c.nextEntity _))
    | restoreBackup => exact issues_of_written (c.recoverBackup_written _)
    | describeGroup => exact .refl c.store
    | teardown => exact c.teardown_issues

/-- So do events one after another. -/
theorem issues_after (events : List Event.{u}) (c : Coordinator Population) :
    Issues (issuedAlong events c) c.store (after events c).store :=
  (along_of_forall (fun _ _ _ => trivial) c : Along (fun _ _ => True) events c).account
    (fun ids c' => Issues ids c.store c'.store) (fun h _ => h.append (issues_apply _))
    (.refl c.store)

/-! ## The hivemind of an old entity -/

variable {h : EntityId} {members : List EntityId}

/-- A host that saves a hivemind over that of `h` saves one of the same members, or is refused. -/
def KeepsList (h : EntityId) (members : List EntityId) (c : Coordinator Population) :
    Event.{u} → Prop
  | save entity .hivemind hive =>
    entity = h → (EntityStore.save h .hivemind hive c.store).1 = .ok () → hive.members = members
  | _ => True

/-- **What becomes of the hivemind of an entity** that has its number: it stays or is dropped,
unless a host saves another one over it. -/
theorem hivemind?_apply (hold : h.raw ≤ c.store.lastId) (event : Event.{u}) :
    (event.apply c).hivemind? h = c.hivemind? h ∨ (event.apply c).hivemind? h = none ∨
      ∃ hive, event = .save h .hivemind hive ∧
        (EntityStore.save h .hivemind hive c.store).1 = .ok () ∧
        (event.apply c).hivemind? h = some hive := by
  have hnew : h ≠ c.nextEntity := by
    rintro rfl
    exact absurd hold (Nat.not_succ_le_self _)
  by_cases hplace : event.Touches c h .hivemind
  · obtain ⟨hive, rfl⟩ | rfl | rfl | rfl | rfl | ⟨hkind, -⟩ :=
      hplace.of_hive hnew (by decide)
    · have hobeys := save_obeys h .hivemind hive c.store
      rcases hsave : EntityStore.save h .hivemind hive c.store with ⟨_ | _, p⟩
      · rw [hsave] at hobeys
        exact .inl ((congrArg (get? h .hivemind ·.2) hsave).trans (hobeys h .hivemind))
      · rw [hsave] at hobeys
        exact .inr (.inr ⟨hive, rfl, congrArg (·.1) hsave,
          (congrArg (get? h .hivemind ·.2) hsave).trans hobeys.written⟩)
    · have hobeys := remove_obeys h .hivemind c.store
      rcases hremove : EntityStore.remove h .hivemind c.store with ⟨_ | _, p⟩
      · rw [hremove] at hobeys
        exact .inl ((congrArg (get? h .hivemind ·.2) hremove).trans (hobeys h .hivemind))
      · rw [hremove] at hobeys
        exact .inr (.inl ((congrArg (get? h .hivemind ·.2) hremove).trans hobeys.written))
    · exact .inr (.inl ((get?_destroy h c.store h .hivemind).trans (if_pos rfl)))
    · exact (Coordinator.get?_teardown c).imp_right .inl
    · exact (Coordinator.get?_teardown c).imp_right .inl
    · cases hkind
  · exact .inl (get?_apply hplace)

/-- If no admitted save changes the list, what hivemind an old entity has lists the members. -/
theorem lists_after {events : List Event.{u}} (hold : h.raw ≤ c.store.lastId)
    (hlist : ∀ hive, c.hivemind? h = some hive → hive.members = members)
    (hkeeps : Along (KeepsList h members) events c) :
    ∀ hive, (after events c).hivemind? h = some hive → hive.members = members := by
  refine (hkeeps.after (fun c => h.raw ≤ c.store.lastId ∧
    ∀ hive, c.hivemind? h = some hive → hive.members = members) ?_ ⟨hold, hlist⟩).2
  rintro c event ⟨hold, hlist⟩ hkeeps
  refine ⟨Nat.le_trans hold (issues_apply event).lastId_le, fun hive hhive => ?_⟩
  rcases hivemind?_apply hold event with hsame | hnone | ⟨other, rfl, hsave, hother⟩
  · exact hlist hive (hsame.symm.trans hhive)
  · exact nomatch hnone.symm.trans hhive
  · cases hother.symm.trans hhive
    exact hkeeps rfl hsave

end Event

/-- Members that are given once are listed as they are given. -/
theorem Hivemind.members_ofMembers (label : String) {members : List EntityId}
    (hmembers : members.Nodup) : (ofMembers label members).members = members := by
  have key : ∀ (rest : List EntityId) (hive : Hivemind), (hive.members ++ rest).Nodup →
      (rest.foldl insert hive).members = hive.members ++ rest := by
    intro rest
    induction rest with
    | nil => exact fun hive _ => (List.append_nil _).symm
    | cons e rest ih =>
      intro hive hnodup
      have hnew : e ∉ hive.members := fun he =>
        (List.nodup_append.mp hnodup).2.2 e he e List.mem_cons_self rfl
      have hinsert : (hive.insert e).members = hive.members ++ [e] := by
        rw [insert, dif_neg hnew]
      have happend : hive.members ++ e :: rest = (hive.insert e).members ++ rest := by
        rw [hinsert, List.append_assoc, List.singleton_append]
      rw [List.foldl_cons, happend]
      exact ih (hive.insert e) (happend ▸ hnodup)
  exact key members (empty label) hmembers

namespace Coordinator

open Population

variable {c c' : Coordinator Population} {h e : EntityId} {hive : Hivemind}

/-- A hivemind that is made gets the next number, and lists the members of its group, which are
entities that there are. -/
theorem hivemind_of_materializeHivemind {label : String}
    (hmade : c.materializeHivemind label = (.ok h, c')) :
    h = c.nextEntity ∧ ∃ hive, c'.hivemind? h = some hive ∧ hive.members = c.members label ∧
      ∀ e ∈ hive.members, c.store.contains e = true := by
  have hmembers : membersOf label (EntityStore.create hivemindEntityName c.store).2 =
      c.members label :=
    membersOf_congr (fun e => by rw [get?_create]) label
  unfold materializeHivemind at hmade
  rcases hstore : EntityStore.create hivemindEntityName c.store with ⟨entity, store⟩
  rw [hstore] at hmade hmembers
  have hnext : entity = c.nextEntity := (congrArg (·.1) hstore).symm
  have hobeys :=
    save_obeys entity .hivemind (Hivemind.ofMembers label (membersOf label store)) store
  dsimp only at hmade
  split at hmade
  · next store' hs =>
    cases hmade
    rw [hs, hmembers] at hobeys
    have hlisted := Hivemind.members_ofMembers label (c.nodup_members label)
    refine ⟨hnext, _, hobeys.written, hlisted, fun e he => ?_⟩
    rw [hlisted] at he
    obtain ⟨tag, htag, -⟩ := tag_of_mem_membersOf he
    exact contains_of_get? htag
  · cases hmade

/-! ### Broadcasts -/

/-- What a broadcast of speed to a list of entities comes to, with the report `r`, from `p` to `q`:
no entity is new or gone, one that is listed gets the speed if it moves and may be written, and
nothing else changes. -/
structure Broadcast (members : List EntityId) (speed : Float32) (r : Report) (p q : Population) :
    Prop where
  contains_eq : ∀ e, q.contains e = p.contains e
  changed : ∀ (e : EntityId) (kind : ComponentKind),
    (get? e kind q : Option kind.Payload) ≠ get? e kind p → e ∈ members ∧
      kind = .characterMovement ∧ p.contains e = true ∧
      (get? e .characterMovement p : Option CharacterMovement).isSome = true
  written : ∀ e ∈ members, e ∉ p.readOnly →
    (get? e .characterMovement p : Option CharacterMovement).isSome = true →
    e ∈ r.affected ∧ get? e .characterMovement q = some (⟨speed⟩ : CharacterMovement)
  skipped : ∀ e ∈ members, (get? e .characterMovement p : Option CharacterMovement) = none →
    (e, .missingComponent .characterMovement) ∈ r.skipped
  destroyed : ∀ e ∈ members, ¬ p.contains e = true →
    (e, .missingComponent .characterMovement) ∈ r.skipped

/-- So much is true of a broadcast that is exact. -/
theorem broadcast_of_exact {label : String} {members : List EntityId} {speed : Float32} {r : Report}
    {p q : Population} (h : ExactBroadcast label members speed r p q) :
    Broadcast members speed r p q where
  contains_eq := h.roll.contains_eq
  changed e kind hne := by
    by_cases hkind : kind = .characterMovement
    · subst hkind
      have haffected : e ∈ r.affected := by
        by_contra he
        exact hne ((h.movement e).trans (if_neg he))
      obtain ⟨he, htakes⟩ := h.mem_affected.mp haffected
      rw [takesSpeed_eq, Bool.and_eq_true] at htakes
      exact ⟨he, rfl, contains_of_moves htakes.1, htakes.1⟩
    · exact absurd (h.components e kind hkind) hne
  written e he hmark hmoves := by
    have htakes : p.takesSpeed e = true := by
      rw [takesSpeed_eq, Bool.and_eq_true]
      exact ⟨hmoves, decide_eq_true hmark⟩
    have haffected := h.mem_affected.mpr ⟨he, htakes⟩
    exact ⟨haffected, (h.movement e).trans (if_pos haffected)⟩
  skipped e he hnone := h.mem_skipped.mpr ⟨he, by rw [moves, hnone, Option.isSome_none]⟩
  destroyed e he hgone :=
    h.mem_skipped.mpr ⟨he, Bool.eq_false_iff.mpr fun hmoves => hgone (contains_of_moves hmoves)⟩

/-- A broadcast of speed to a hivemind is one to those that it lists now. -/
theorem broadcast_propagateSpeed (hhive : c.hivemind? h = some hive) (multiplier : Float32) :
    Broadcast hive.members multiplier (c.propagateSpeed h multiplier).1 c.store
      (c.propagateSpeed h multiplier).2.store :=
  broadcast_of_exact (exactBroadcast_propagateSpeed hhive multiplier)

/-- **What a hivemind addresses is what is left of the group it was made of.** In a history of a
population each number that is given out, also to a hivemind that is refused, is greater than every
one before it, and an entity that has been destroyed does not come back. So a hivemind that is made
lists entities that there were, never one that is numbered later; and as long as no save that is
admitted changes the list, it lists them still or is gone, and a broadcast of speed to it is a
broadcast to those of them that are left. -/
theorem hivemind_addresses_old (c₀ : Coordinator Population) :
    (∀ events : List Event.{u},
      (Event.issuedAlong events c₀).Pairwise fun a b => a.raw < b.raw) ∧
    (∀ events more : List Event.{u}, ∀ e ∈ Event.issuedAlong events c₀,
      ¬ (Event.after events c₀).store.contains e = true →
      ¬ (Event.after (events ++ more) c₀).store.contains e = true) ∧
    ∀ (before : List Event.{u}) (label : String) (h : EntityId) (c : Coordinator Population),
      (Event.after before c₀).materializeHivemind label = (.ok h, c) →
      ∃ hive, c.hivemind? h = some hive ∧
        hive.members = (Event.after before c₀).members label ∧
        (∀ e ∈ hive.members, (Event.after before c₀).store.contains e = true) ∧
        ∀ later : List Event.{u}, Event.Along (Event.KeepsList h hive.members) later c →
          (∀ e ∈ hive.members, e ∉ h :: Event.issuedAlong later c) ∧
          let c' := Event.after later c
          (∃ hive', c'.hivemind? h = some hive' ∧ hive'.members = hive.members ∧
            ∀ multiplier, Broadcast hive.members multiplier (c'.propagateSpeed h multiplier).1
              c'.store (c'.propagateSpeed h multiplier).2.store) ∨
          (c'.hivemind? h = none ∧ ∀ multiplier, c'.propagateSpeed h multiplier =
            (.abort .propagateSpeed "" (.notAHivemind h), c')) := by
  refine ⟨fun events => (Event.issues_after events c₀).ascending,
    fun events more e he hgone hback => hgone ?_, fun before label h c hmade => ?_⟩
  · rw [Event.after_append] at hback
    exact (Event.issues_after more _).old e ((Event.issues_after events c₀).new e he).2 hback
  · have hissues := (Event.after before c₀).materializeHivemind_issues label
    obtain ⟨hnext, hive, hhive, hmembers, hthere⟩ := hivemind_of_materializeHivemind hmade
    rw [hmade, ← hnext] at hissues
    refine ⟨hive, hhive, hmembers, hthere, fun later hkeeps => ⟨fun e he hnew => ?_, ?_⟩⟩
    · have hold : e.raw ≤ (Event.after before c₀).store.lastId :=
        (Event.after before c₀).store.numbered e (hthere e he)
      have hlate := (hissues.append (Event.issues_after later c)).new e hnew
      exact absurd hold (Nat.not_le_of_gt hlate.1)
    · intro c'
      have hnumbered := (hissues.new _ List.mem_cons_self).2
      have hstart : ∀ other, c.hivemind? h = some other →
          other.members = hive.members := fun other hother =>
        congrArg (·.members) (Option.some.inj (hother.symm.trans hhive))
      have hlists := Event.lists_after hnumbered hstart hkeeps
      cases hnow : c'.hivemind? h with
      | some hive' =>
        have hlisted := hlists hive' hnow
        refine .inl ⟨hive', rfl, hlisted, fun multiplier => ?_⟩
        rw [← hlisted]
        exact broadcast_propagateSpeed hnow multiplier
      | none =>
        refine .inr ⟨rfl, fun multiplier => ?_⟩
        rw [propagateSpeed, hnow]

/-- A deer of a herd that moves. -/
def movingDeerRecord : EntityRecord :=
  { EntityRecord.ofName "deer" with
    groupTag := some (.ofLabel "herd"), characterMovement := some .standard }

/-- Two of them come to an empty population. -/
def movingDeer : List Event.{0} := [.spawn movingDeerRecord, .spawn movingDeerRecord]

/-- A coordinator over nobody. -/
def overNobody : Coordinator Population where
  store := .empty
  library := .empty
  settings := .standard
  registry := .empty
  recordCount := 0

/-- The first deer of a hivemind is destroyed, a third comes to its herd, and the hivemind gets
another label: a broadcast skips the first, reaches the second, and leaves the third alone. -/
theorem movingDeer_addressed :
    let made := (Event.after movingDeer overNobody).materializeHivemind "herd"
    let now := Event.after.{0} [.destroy ⟨1⟩, .spawn movingDeerRecord,
      .save ⟨3⟩ .hivemind (.ofMembers "flock" [⟨1⟩, ⟨2⟩])] made.2
    now.members "herd" = [⟨2⟩, ⟨4⟩] ∧
      (⟨1⟩, .missingComponent .characterMovement) ∈ (now.propagateSpeed ⟨3⟩ 2).1.skipped ∧
      ⟨2⟩ ∈ (now.propagateSpeed ⟨3⟩ 2).1.affected ∧
      get? ⟨4⟩ .characterMovement (now.propagateSpeed ⟨3⟩ 2).2.store =
        (get? ⟨4⟩ .characterMovement now.store : Option CharacterMovement) := by
  intro made now
  obtain ⟨-, -, haddressed⟩ := hivemind_addresses_old overNobody
  obtain ⟨hive, hhive, hmembers, -, hlater⟩ := haddressed movingDeer "herd" ⟨3⟩ made.2 rfl
  have hlisted : hive.members = [⟨1⟩, ⟨2⟩] := hmembers.trans (by decide)
  rw [hlisted] at hlater
  obtain ⟨-, ⟨-, -, -, hbroadcast⟩ | ⟨hnone, -⟩⟩ :=
    hlater [.destroy ⟨1⟩, .spawn movingDeerRecord,
      .save ⟨3⟩ .hivemind (.ofMembers "flock" [⟨1⟩, ⟨2⟩])]
      ⟨trivial, trivial, fun _ _ => by decide, trivial⟩
  · have hb := hbroadcast 2
    refine ⟨by decide, hb.destroyed ⟨1⟩ (by decide) (by decide),
      (hb.written ⟨2⟩ (by decide) (by decide) (by decide)).1, ?_⟩
    by_contra hne
    exact absurd (hb.changed ⟨4⟩ .characterMovement hne).1 (by decide)
  · exact absurd hnone (by decide)

/-- **A save may take a hivemind to others.** It is not so that whatever happens later a hivemind
addresses only what was there when it was made: a host that saves another list over it takes the
next broadcast to an entity that came later. -/
theorem not_only_old_addressed :
    ¬ ∀ (before later : List Event.{0}) (label : String) (h : EntityId)
        (c : Coordinator Population),
      (Event.after before overNobody).materializeHivemind label = (.ok h, c) →
      ∀ multiplier, ∀ e ∈ ((Event.after later c).propagateSpeed h multiplier).1.affected,
        (Event.after before overNobody).store.contains e = true := by
  intro hold
  have hthere := hold movingDeer
    [.spawn movingDeerRecord, .save ⟨3⟩ .hivemind (.ofMembers "herd" [⟨4⟩])] "herd" ⟨3⟩ _ rfl 2 ⟨4⟩
    (by decide)
  exact absurd hthere (by decide)

end Coordinator

end Herd
