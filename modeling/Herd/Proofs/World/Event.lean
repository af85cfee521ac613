import Herd.Proofs.Group.Footprint
import Herd.Scenario
import Herd.World.Gate

/-!
# What may happen to a world

A world is a coordinator over a store that keeps its entities in a population, alone or behind a
gate. `Event` lists all that may happen to it: what a host does to the store, the operations of the
coordinator, and ticks that are saved back. `Event.apply` is what one event does, and `Event.after`
is where a list of them leads.

Whichever writes a lawful store refuses, an event leaves alone every component that it does not
touch (`Event.get?_apply`); what makes up a hivemind is touched by few (`Event.Touches.of_hive`); a
scenario is no more than its steps (`Event.apply_scenario`); and only a new configuration changes
the settings (`Event.settings_apply`).

A history is a list of events that are allowed where they happen (`Event.Along`), and what is noted
of them on the way is an `Event.account`. What each allowed event keeps, with what is noted of it, a
history keeps (`Event.Along.account`).
-/

namespace Herd

open EntityStore LawfulStore

universe u v

/-! ## Settings -/

namespace Coordinator

variable {σ : Type} [EntityStore σ] (c : Coordinator σ)

/-- An assignment leaves the settings alone. -/
theorem settings_assignBehavior (label treeName : String) (skinName : Option String) :
    (c.assignBehavior label treeName skinName).2.settings = c.settings := by
  unfold assignBehavior
  dsimp only
  split <;> rfl

theorem settings_materializeHivemind (label : String) :
    (c.materializeHivemind label).2.settings = c.settings := by
  unfold materializeHivemind
  dsimp only
  split <;> rfl

theorem settings_propagateSpeed (entity : EntityId) (multiplier : Float32) :
    (c.propagateSpeed entity multiplier).2.settings = c.settings := by
  unfold propagateSpeed
  split <;> rfl

theorem settings_assignCollective (entity : EntityId) (treeName : String) :
    (c.assignCollective entity treeName).2.settings = c.settings := by
  unfold assignCollective
  split
  · rfl
  · split
    · rfl
    · split
      · rfl
      · simp only [freshRecord]
        split
        · rfl
        · split <;> rfl

end Coordinator

/-! ## Stores over a population -/

/-- A store that keeps its entities in a population, alone or behind something that judges writes. A
host may reach past that, to the population itself. -/
class PopulationStore (σ : Type) [EntityStore σ] where
  population : σ → Population
  /-- Do something to the population itself. -/
  alter : (Population → Population) → σ → σ
  population_alter : ∀ f s, population (alter f s) = f (population s)
  get?_population : ∀ e kind s, get? e kind (population s) = get? e kind s
  /-- Entities are numbered by the population. -/
  fst_create : ∀ name s, (create name s).1 = ⟨(population s).lastId + 1⟩

open PopulationStore

instance : PopulationStore Population where
  population p := p
  alter f p := f p
  population_alter _ _ := rfl
  get?_population _ _ _ := rfl
  fst_create _ _ := rfl

instance {γ : Type} [Gate γ] : PopulationStore (Gated γ) where
  population s := s.population
  alter f s := { s with population := f s.population }
  population_alter _ _ := rfl
  get?_population _ _ _ := rfl
  fst_create _ _ := rfl

variable {σ : Type} [EntityStore σ] [PopulationStore σ]

/-- What is done to the population is seen in the store. -/
theorem get?_alter (f : Population → Population) (s : σ) (e : EntityId) (kind : ComponentKind) :
    get? e kind (alter f s) = get? e kind (f (population s)) := by
  rw [← get?_population, population_alter]

namespace Coordinator

variable (c : Coordinator σ) {e : EntityId} {kind : ComponentKind}

/-- The entity that comes next. -/
def nextEntity : EntityId := ⟨(population c.store).lastId + 1⟩

/-- It has no component from before. -/
theorem get?_nextEntity (kind : ComponentKind) : get? c.nextEntity kind c.store = none := by
  rw [← get?_population]
  show ((population c.store).records.find? ⟨(population c.store).lastId + 1⟩).bind _ = none
  rw [Population.find?_next]
  rfl

variable [LawfulStore σ]

/-- A new hivemind is a component of the next entity, and changes nothing else; if it is refused it
changes nothing at all. -/
theorem get?_materialize (label : String) (hplace : ¬ (e = c.nextEntity ∧ kind = .hivemind)) :
    get? e kind (c.materializeHivemind label).2.store = get? e kind c.store := by
  have hnext : (EntityStore.create hivemindEntityName c.store).1 = c.nextEntity := fst_create _ _
  refine c.get?_materializeHivemind label fun he => ?_
  rw [he, hnext] at hplace ⊢
  exact ⟨fun hkind => hplace ⟨rfl, hkind⟩, c.get?_nextEntity kind⟩

/-- The hivemind that is made is the next entity, or it is refused and there is none. -/
theorem materializeHivemind_cases (label : String) :
    (c.materializeHivemind label).1 = .ok c.nextEntity ∨
      ∃ fault, (c.materializeHivemind label).1 = .error fault ∧
        (c.materializeHivemind label).2.hivemind? c.nextEntity = none := by
  have hnext : (EntityStore.create hivemindEntityName c.store).1 = c.nextEntity := fst_create _ _
  unfold materializeHivemind
  split
  next entity store hstore =>
    rw [hstore] at hnext
    subst hnext
    dsimp only
    split
    · exact .inl rfl
    · next f store' _ =>
      exact .inr ⟨_, rfl, (get?_destroy c.nextEntity store' c.nextEntity .hivemind).trans
        (if_pos rfl)⟩

end Coordinator

/-! ## Events -/

/-- Something that happens to a world. -/
inductive Event
  /-- Add an entity with its components. -/
  | spawn (record : EntityRecord)
  | create (name : String)
  | save (entity : EntityId) (kind : ComponentKind) (component : kind.Payload)
  | remove (entity : EntityId) (kind : ComponentKind)
  | destroy (entity : EntityId)
  | mark (entity : EntityId) (readOnly : Bool)
  | assign (label treeName : String) (skinName : Option String)
  | recover (label : String)
  | materialize (label : String)
  | speed (entity : EntityId) (multiplier : Float32)
  | collective (entity : EntityId) (treeName : String)
  | teardown
  | scenario (choice : Scenario)
  /-- Go on with another library and other settings, if these are valid. -/
  | configure (library : Library) (settings : Settings)
  /-- Tick what an entity runs and save it back, whatever its leaves do. -/
  | tick {α : Type u} (handler : ActionHandler α) (x : α) (entity : EntityId)
  | tickCollective {α : Type u} (handler : ActionHandler α) (x : α) (entity : EntityId)

namespace Event

/-- What an event does. -/
def apply (c : Coordinator σ) : Event.{u} → Coordinator σ
  | spawn record => { c with store := alter (fun p => (p.spawn record).2) c.store }
  | create name => { c with store := (EntityStore.create name c.store).2 }
  | save entity kind component =>
    { c with store := (EntityStore.save entity kind component c.store).2 }
  | remove entity kind => { c with store := (EntityStore.remove entity kind c.store).2 }
  | destroy entity => { c with store := (EntityStore.destroy entity c.store).2 }
  | mark entity readOnly => { c with store := alter (·.setReadOnly entity readOnly) c.store }
  | assign label treeName skinName => (c.assignBehavior label treeName skinName).2
  | recover label => (c.recoverBackup label).2
  | materialize label => (c.materializeHivemind label).2
  | speed entity multiplier => (c.propagateSpeed entity multiplier).2
  | collective entity treeName => (c.assignCollective entity treeName).2
  | teardown => c.teardown.2
  | scenario choice => (c.run choice).2
  | configure library settings =>
    match c.reconfigure library settings with
    | .ok c' => c'
    | .error _ => c
  | tick handler x entity => { c with store := (tickBehavior handler entity x c.store).2.2 }
  | tickCollective handler x entity =>
    { c with store := (Herd.tickCollective handler entity x c.store).2.2 }

/-- Where events lead. -/
def after (events : List Event.{u}) (c : Coordinator σ) : Coordinator σ := events.foldl apply c

/-- Events lead where the later ones lead from where the first ones do. -/
theorem after_append (first second : List Event.{u}) (c : Coordinator σ) :
    after (first ++ second) c = after second (after first c) :=
  List.foldl_append

end Event

/-! ## Scenarios -/

/-- What a scenario does, step by step. The operation on a hivemind is on the entity that comes
next. -/
def Scenario.steps (c : Coordinator σ) : Scenario → List Event.{u}
  | .assignGroupBehavior =>
    [.assign c.settings.groupLabel c.settings.behaviorTree c.settings.groupSkin]
  | .synchronizeSpeed =>
    [.materialize c.settings.groupLabel, .speed c.nextEntity c.settings.speedMultiplier]
  | .collectiveBehavior =>
    [.materialize c.settings.groupLabel, .collective c.nextEntity c.settings.behaviorTree]
  | .restoreBackup => [.recover c.settings.groupLabel]
  | .describeGroup => []
  | .teardown => [.teardown]

section Lawful

variable [LawfulStore σ]

/-- An operation on a new hivemind is two steps, also where the hivemind is refused: then there is
none to operate on. -/
theorem Coordinator.snd_viaHivemind (c : Coordinator σ) (scenario : Scenario)
    {operation : Coordinator σ → EntityId → Report × Coordinator σ}
    (hnone : ∀ c entity, c.hivemind? entity = none → (operation c entity).2 = c) :
    (c.viaHivemind scenario operation).2 =
      (operation (c.materializeHivemind c.settings.groupLabel).2 c.nextEntity).2 := by
  have hcases := c.materializeHivemind_cases c.settings.groupLabel
  unfold viaHivemind
  generalize c.materializeHivemind c.settings.groupLabel = making at hcases ⊢
  obtain ⟨made, c'⟩ := making
  rcases hcases with hmade | ⟨fault, herror, hgone⟩
  · obtain rfl : made = .ok c.nextEntity := hmade
    rfl
  · obtain rfl : made = .error fault := herror
    exact (hnone c' c.nextEntity hgone).symm

namespace Event

/-- **A scenario is no more than its steps.** -/
theorem apply_scenario (choice : Scenario) (c : Coordinator σ) :
    (scenario.{u} choice).apply c = after.{u} (choice.steps c) c := by
  cases choice with
  | synchronizeSpeed =>
    refine c.snd_viaHivemind .synchronizeSpeed fun c entity hnone => ?_
    show (c.propagateSpeed entity _).2 = c
    rw [Coordinator.propagateSpeed, hnone]
  | collectiveBehavior =>
    refine c.snd_viaHivemind .collectiveBehavior fun c entity hnone => ?_
    show (c.assignCollective entity _).2 = c
    rw [Coordinator.assignCollective, hnone]
  | describeGroup =>
    simp only [apply, Coordinator.run]
    split <;> rfl
  | assignGroupBehavior | restoreBackup | teardown => rfl

/-- Only a new configuration changes the settings. -/
theorem settings_apply {event : Event.{u}}
    (h : ∀ library settings, event ≠ .configure library settings) (c : Coordinator σ) :
    (event.apply c).settings = c.settings := by
  cases event with
  | assign label treeName skinName => exact c.settings_assignBehavior label treeName skinName
  | materialize label => exact c.settings_materializeHivemind label
  | speed entity multiplier => exact c.settings_propagateSpeed entity multiplier
  | collective entity treeName => exact c.settings_assignCollective entity treeName
  | configure library settings => exact absurd rfl (h library settings)
  | scenario choice =>
    rw [apply_scenario]
    cases choice with
    | assignGroupBehavior => exact c.settings_assignBehavior _ _ _
    | synchronizeSpeed =>
      exact (Coordinator.settings_propagateSpeed _ _ _).trans (c.settings_materializeHivemind _)
    | collectiveBehavior =>
      exact (Coordinator.settings_assignCollective _ _ _).trans (c.settings_materializeHivemind _)
    | describeGroup | restoreBackup | teardown => rfl
  | _ => rfl

end Event

/-! ## What events leave alone -/

/-- What makes up a hivemind that runs a tree. -/
def ComponentKind.ofHive : List ComponentKind := [.hivemind, .collectiveBehavior]

namespace Event

omit [LawfulStore σ] in
/-- A new configuration leaves the store alone, valid or not. -/
theorem store_configure (library : Library) (settings : Settings) (c : Coordinator σ) :
    ((configure.{u} library settings).apply c).store = c.store := by
  simp only [apply, Coordinator.reconfigure]
  cases settings.validate with
  | ok => rfl
  | error fault => rfl

/-- The places at which an event may change a component. A scenario has those of its steps, and a
teardown may have any. -/
def Touches (c : Coordinator σ) (e : EntityId) (kind : ComponentKind) : Event.{u} → Prop
  | spawn _ => e = c.nextEntity
  | save entity kind' _ | remove entity kind' => e = entity ∧ kind = kind'
  | destroy entity => e = entity
  | assign label _ _ => e ∈ c.members label ∧ kind ∈ Assignment.kinds
  | recover label => e ∈ c.members label ∧ kind ∈ Recovery.kinds
  | materialize _ => e = c.nextEntity ∧ kind = .hivemind
  | speed _ _ => kind = .characterMovement
  | collective entity _ | tickCollective _ _ entity => e = entity ∧ kind = .collectiveBehavior
  | tick _ _ entity => e = entity ∧ kind = .behavior
  | scenario .assignGroupBehavior =>
    e ∈ c.members c.settings.groupLabel ∧ kind ∈ Assignment.kinds
  | scenario .restoreBackup => e ∈ c.members c.settings.groupLabel ∧ kind ∈ Recovery.kinds
  | scenario .synchronizeSpeed => (e = c.nextEntity ∧ kind = .hivemind) ∨ kind = .characterMovement
  | scenario .collectiveBehavior =>
    (e = c.nextEntity ∧ kind = .hivemind) ∨ (e = c.nextEntity ∧ kind = .collectiveBehavior)
  | teardown | scenario .teardown => True
  | create _ | mark _ _ | configure _ _ | scenario .describeGroup => False

variable {c : Coordinator σ} {e : EntityId} {kind : ComponentKind}

/-- **What an event does not touch stays as it is**, whichever writes are refused. -/
theorem get?_apply {event : Event.{u}} (h : ¬ event.Touches c e kind) :
    get? e kind (event.apply c).store = get? e kind c.store := by
  cases event with
  | spawn record =>
    refine (get?_alter _ c.store e kind).trans ?_
    rw [Population.get?_spawn, ← get?_population e kind c.store]
    exact if_neg h
  | create name => exact same_of_create name c.store e kind
  | save entity kind' component =>
    have hsave : Written (fun d k => d = entity ∧ k = kind') c.store
        (EntityStore.save entity kind' component c.store).2 := .save .refl ⟨rfl, rfl⟩ component
    exact hsave.get?_eq h
  | remove entity kind' =>
    have hremove : Written (fun d k => d = entity ∧ k = kind') c.store
        (EntityStore.remove entity kind' c.store).2 := .remove .refl ⟨rfl, rfl⟩
    exact hremove.get?_eq h
  | destroy entity => exact (get?_destroy entity c.store e kind).trans (if_neg h)
  | mark entity readOnly =>
    refine (get?_alter _ c.store e kind).trans ?_
    rw [Population.get?_setReadOnly, get?_population]
  | assign label treeName skinName =>
    exact (c.assignBehavior_written label treeName skinName).get?_eq h
  | recover label => exact (c.recoverBackup_written label).get?_eq h
  | materialize label => exact c.get?_materialize label h
  | speed entity multiplier => exact (c.propagateSpeed_written entity multiplier).get?_eq h
  | collective entity treeName => exact (c.assignCollective_written entity treeName).get?_eq h
  | teardown => exact absurd trivial h
  | configure library settings => rw [store_configure]
  | tick handler x entity => exact (tickBehavior_written handler entity x c.store).get?_eq h
  | tickCollective handler x entity =>
    exact (tickCollective_written handler entity x c.store).get?_eq h
  | scenario choice =>
    rw [apply_scenario]
    cases choice with
    | assignGroupBehavior => exact (c.assignBehavior_written _ _ _).get?_eq h
    | restoreBackup => exact (c.recoverBackup_written _).get?_eq h
    | describeGroup => rfl
    | teardown => exact absurd trivial h
    | synchronizeSpeed =>
      obtain ⟨hnew, hspeed⟩ := not_or.mp h
      exact ((Coordinator.propagateSpeed_written _ c.nextEntity _).get?_eq hspeed).trans
        (c.get?_materialize _ hnew)
    | collectiveBehavior =>
      obtain ⟨hnew, hrecord⟩ := not_or.mp h
      exact ((Coordinator.assignCollective_written _ c.nextEntity _).get?_eq hrecord).trans
        (c.get?_materialize _ hnew)

omit [LawfulStore σ] in
/-- What touches what makes up the hivemind of an entity that is there: a host, a teardown, and as
to the tree that it runs a call on it or a tick. -/
theorem Touches.of_hive (hnew : e ≠ c.nextEntity) (hkind : kind ∈ ComponentKind.ofHive)
    {event : Event.{u}} (hplace : event.Touches c e kind) :
    (∃ x, event = .save e kind x) ∨ event = .remove e kind ∨ event = .destroy e ∨
      event = .teardown ∨ event = .scenario .teardown ∨ kind = .collectiveBehavior ∧
        ((∃ treeName, event = .collective e treeName) ∨
          ∃ (α : Type u) (handler : ActionHandler α) (x : α),
            event = .tickCollective handler x e) := by
  have hothers : kind ∉ Assignment.kinds ∧ kind ∉ Recovery.kinds ∧ kind ≠ .characterMovement ∧
      kind ≠ .behavior := by
    clear hplace
    revert kind
    decide
  obtain ⟨hassign, hrecover, hspeed, hbehavior⟩ := hothers
  cases event with
  | save entity kind' x =>
    obtain ⟨rfl, rfl⟩ := hplace
    exact .inl ⟨x, rfl⟩
  | remove entity kind' =>
    obtain ⟨rfl, rfl⟩ := hplace
    exact .inr (.inl rfl)
  | destroy entity =>
    obtain rfl := hplace
    exact .inr (.inr (.inl rfl))
  | teardown => exact .inr (.inr (.inr (.inl rfl)))
  | collective entity treeName =>
    obtain ⟨rfl, rfl⟩ := hplace
    exact .inr (.inr (.inr (.inr (.inr ⟨rfl, .inl ⟨treeName, rfl⟩⟩))))
  | tickCollective handler x entity =>
    obtain ⟨rfl, rfl⟩ := hplace
    exact .inr (.inr (.inr (.inr (.inr ⟨rfl, .inr ⟨_, handler, x, rfl⟩⟩))))
  | spawn record => exact absurd hplace hnew
  | materialize label => exact absurd hplace.1 hnew
  | assign label treeName skinName => exact absurd hplace.2 hassign
  | recover label => exact absurd hplace.2 hrecover
  | speed entity multiplier => exact absurd hplace hspeed
  | tick handler x entity => exact absurd hplace.2 hbehavior
  | create name | mark entity readOnly | configure library settings => exact hplace.elim
  | scenario choice =>
    cases choice with
    | teardown => exact .inr (.inr (.inr (.inr (.inl rfl))))
    | assignGroupBehavior => exact absurd hplace.2 hassign
    | restoreBackup => exact absurd hplace.2 hrecover
    | synchronizeSpeed =>
      exact hplace.elim (fun hplace => absurd hplace.1 hnew) fun hplace => absurd hplace hspeed
    | collectiveBehavior =>
      exact hplace.elim (fun hplace => absurd hplace.1 hnew) fun hplace => absurd hplace.1 hnew
    | describeGroup => exact hplace.elim

end Event

end Lawful

/-! ## Histories -/

namespace Event

/-- Each event is `P` where it happens. -/
def Along (P : Coordinator σ → Event.{u} → Prop) : List Event.{u} → Coordinator σ → Prop
  | [], _ => True
  | event :: rest, c => P c event ∧ Along P rest (event.apply c)

/-- What is noted of events one after another, each where it happens, from `a` on. -/
def account {A : Type v} (note : Coordinator σ → Event.{u} → A → A) :
    List Event.{u} → Coordinator σ → A → A
  | [], _, a => a
  | event :: rest, c, a => account note rest (event.apply c) (note c event a)

variable {P : Coordinator σ → Event.{u} → Prop} {A : Type v}
  {note : Coordinator σ → Event.{u} → A → A}

/-- What does not depend on where events happen is so along all of them. -/
theorem along_of_forall {events : List Event.{u}} (h : ∀ event ∈ events, ∀ c, P c event) :
    ∀ c : Coordinator σ, Along P events c := by
  induction events with
  | nil => exact fun _ => trivial
  | cons event rest ih =>
    obtain ⟨hfirst, hrest⟩ := List.forall_mem_cons.mp h
    exact fun c => ⟨hfirst c, ih hrest _⟩

/-- **What each allowed event keeps, with what is noted of it, a history keeps.** -/
theorem Along.account (Inv : A → Coordinator σ → Prop)
    (hstep : ∀ {a c event}, Inv a c → P c event → Inv (note c event a) (event.apply c))
    {events : List Event.{u}} {c : Coordinator σ} {a : A} (halong : Along P events c)
    (h : Inv a c) : Inv (Event.account note events c a) (Event.after events c) := by
  induction events generalizing c a with
  | nil => exact h
  | cons event rest ih => exact ih halong.2 (hstep h halong.1)

/-- So it is where nothing is noted. -/
theorem Along.after (Inv : Coordinator σ → Prop)
    (hstep : ∀ {c event}, Inv c → P c event → Inv (event.apply c))
    {events : List Event.{u}} {c : Coordinator σ} (halong : Along P events c) (h : Inv c) :
    Inv (Event.after events c) :=
  @Along.account σ _ _ P Unit (fun _ _ a => a) (fun _ => Inv) hstep events c () halong h

end Event

end Herd
