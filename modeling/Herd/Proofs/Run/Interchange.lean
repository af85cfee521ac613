import Herd.Proofs.Run.Refinement
import Herd.Proofs.Run.Unison

/-!
# Trees that may stand for each other

What a run shows is what the machine of its root does. Where leaves do not look at their addresses,
two roots may stand for each other if the machine of one does what that of the other does, its
states read through a translation (`Machine.Through`, `Node.Interchangeable`). Every composite
translates its state by translating those of its children, each by its place among them
(`Progress.translate`); so what may stand for each other may do so within any tree
(`interchangeable_plug`).

The leaves of an actor do not look at their addresses. So an actor's runs of two such trees show
the same in every tick (`Node.Interchangeable.sameConduct`): the same status, the same calls of the
handler in the same order, and the same done to the actor.
-/

namespace Herd

universe u

variable {σ : Type u}

/-! ## Translating states -/

namespace Answer

variable {α β : Type}

@[simp] theorem status_map (f : α → β) (a : Answer α) : (a.map f).status = a.status := by
  cases a <;> rfl

@[simp] theorem state?_map (f : α → β) (a : Answer α) : (a.map f).state? = a.state?.map f := by
  cases a <;> rfl

@[simp] theorem verdict?_map (f : α → β) (a : Answer α) : (a.map f).verdict? = a.verdict? := by
  cases a <;> rfl

@[simp] theorem map_id (a : Answer α) : a.map id = a := by
  cases a <;> rfl

/-- Map the state of each answer, by its place; `k` stand before them. -/
def mapEach (φ : Nat → α → β) (k : Nat) (answers : List (Answer α)) : List (Answer β) :=
  (answers.zipIdx k).map fun (a, i) => a.map (φ i)

section MapEach

variable (φ : Nat → α → β) (k : Nat) (answers : List (Answer α))

@[simp] theorem mapEach_cons (a : Answer α) :
    mapEach φ k (a :: answers) = a.map (φ k) :: mapEach φ (k + 1) answers := rfl

@[simp] theorem length_mapEach : (mapEach φ k answers).length = answers.length := by
  rw [mapEach, List.length_map, List.length_zipIdx]

theorem verdicts_mapEach :
    (mapEach φ k answers).map verdict? = answers.map verdict? := by
  induction answers generalizing k with
  | nil => rfl
  | cons a rest ih => simp only [mapEach_cons, List.map_cons, verdict?_map, ih]

end MapEach

/-- Reading a state as one that may be missing goes with any mapping. -/
theorem mapEach_some (φ : Nat → α → β) (k : Nat) (answers : List (Answer α)) :
    (mapEach φ k answers).map (map some) =
      mapEach (fun i => Option.map (φ i)) k (answers.map (map some)) := by
  induction answers generalizing k with
  | nil => rfl
  | cons a rest ih =>
    rw [mapEach_cons, List.map_cons, List.map_cons, mapEach_cons, ih]
    cases a <;> rfl

/-- Nothing is translated where nothing is in progress. -/
theorem mapEach_idle (φ : Nat → α → β) (k count : Nat) :
    mapEach (fun i => Option.map (φ i)) k (List.replicate count (running none)) =
      List.replicate count (running none) := by
  induction count generalizing k with
  | zero => rfl
  | succ count ih => rw [List.replicate_succ, mapEach_cons, ih]; rfl

end Answer

/-- The state of a composite, with the states of its children read through `φ`, each by its place
among them. -/
def Progress.translate (φ : Nat → Progress → Progress) : Progress → Progress
  | .leaf => .leaf
  | .ordered index q => .ordered index (φ index q)
  | .parallel answers => .parallel (Answer.mapEach φ 0 answers)
  | .repeated successes q => .repeated successes (φ 0 q)
  | .timeout spent q => .timeout spent (φ 0 q)
  | .inverter q => .inverter (φ 0 q)
  | .untilFail q => .untilFail (q.map (φ 0))

namespace Machine

/-- The second machine does what the first does, and its states are those of the first, read
through `φ`. -/
def Through (φ : Progress → Progress) (f g : Machine σ) : Prop :=
  ∀ p x, g (p.map φ) x = Prod.map (Answer.map φ) id (f p x)

/-- A machine does what it does itself. -/
theorem through_id (f : Machine σ) : f.Through id f := by
  intro p x
  rw [Option.map_id]
  exact Prod.ext (Answer.map_id _).symm rfl

/-- Machines of siblings, of which `k` stand before the first, each through the translation of its
place. -/
inductive ThroughEach (φ : Nat → Progress → Progress) :
    Nat → List (Machine σ) → List (Machine σ) → Prop
  | nil {k : Nat} : ThroughEach φ k [] []
  | cons {k : Nat} {f g : Machine σ} {fs gs : List (Machine σ)} (head : f.Through (φ k) g)
    (rest : ThroughEach φ (k + 1) fs gs) : ThroughEach φ k (f :: fs) (g :: gs)

variable {φ : Nat → Progress → Progress} {k : Nat} {fs gs : List (Machine σ)}

theorem ThroughEach.length_eq (h : ThroughEach φ k fs gs) : gs.length = fs.length := by
  induction h with
  | nil => rfl
  | cons _ _ ih => rw [List.length_cons, List.length_cons, ih]

/-- Machines go with machines in two parts as in one. -/
theorem ThroughEach.append (h : ThroughEach φ k fs gs) {fs' gs' : List (Machine σ)}
    (h' : ThroughEach φ (k + fs.length) fs' gs') : ThroughEach φ k (fs ++ fs') (gs ++ gs') := by
  induction h with
  | nil => exact h'
  | cons head _ ih =>
    rw [List.length_cons, ← Nat.add_assoc, Nat.add_right_comm] at h'
    exact .cons head (ih h')

theorem ThroughEach.drop (h : ThroughEach φ k fs gs) (n : Nat) :
    ThroughEach φ (k + n) (fs.drop n) (gs.drop n) := by
  induction n generalizing k fs gs with
  | zero => exact h
  | succ n ih =>
    cases h with
    | nil => exact .nil
    | @cons _ f g fs gs _ rest =>
      rw [← Nat.add_assoc, Nat.add_right_comm]
      exact ih rest

/-! ## One lemma for each kind of composite -/

/-- Children in order go with their translations, from any of them on. -/
theorem ordered_through (goOn : Bool) (h : ThroughEach φ k fs gs) : ∀ p x,
    ordered goOn k gs (p.map (φ k)) x =
      Prod.map (Answer.map (Progress.translate φ)) id (ordered goOn k fs p x) := by
  induction h with
  | nil => exact fun p x => rfl
  | @cons k f g fs gs head _ ih =>
    intro p x
    simp only [ordered, head p x]
    rcases f p x with ⟨b | q, y⟩
    · by_cases hb : b = goOn
      · -- the next child is idle, and idle translates to idle
        simp only [Prod.map, Answer.map, if_pos hb]
        exact ih none y
      · simp only [Prod.map, Answer.map, if_neg hb]
    · rfl

theorem resumed_through (goOn : Bool) (h : ThroughEach φ 0 fs gs) :
    (resumed goOn fs).Through (Progress.translate φ) (resumed goOn gs) := by
  intro p x
  -- a note of another kind counts as none on both sides
  match p with
  | some (.ordered index q) =>
    have hrest := h.drop index
    rw [Nat.zero_add] at hrest
    exact ordered_through goOn hrest (some q) x
  | none | some .leaf | some (.parallel _) | some (.repeated _ _) | some (.timeout _ _)
  | some (.inverter _) | some (.untilFail _) => exact ordered_through goOn h none x

/-- Slots are filled with the same verdicts. -/
theorem fill_through (h : ThroughEach φ k fs gs) : ∀ slots x,
    fill (Answer.mapEach (fun i => Option.map (φ i)) k slots) gs x =
      Prod.map (Answer.mapEach φ k) id (fill slots fs x) := by
  induction h with
  | nil =>
    intro slots x
    rcases slots with _ | ⟨_ | _, _⟩ <;> rfl
  | cons head _ ih =>
    intro slots x
    rcases slots with _ | ⟨b | p, slots⟩
    · rfl
    · simp only [Answer.mapEach_cons, Answer.map, fill, ih]
      rfl
    · simp only [Answer.mapEach_cons, Answer.map, fill, head p x, Prod.map, ih]
      rfl

/-- A parallel node concludes the same from translated answers. -/
theorem conclude_mapEach (threshold : Nat) (answers : List (Answer Progress)) :
    conclude threshold (Answer.mapEach φ 0 answers) =
      (conclude threshold answers).map (Progress.translate φ) := by
  simp only [conclude, Answer.verdicts_mapEach, Answer.length_mapEach]
  split
  · rfl
  · split <;> rfl

/-- A parallel node goes with that of the translated children. -/
theorem parallel_through (threshold : Nat) (h : ThroughEach φ 0 fs gs) :
    (parallel threshold fs).Through (Progress.translate φ) (parallel threshold gs) := by
  have hidle : ∀ x, fill (List.replicate gs.length (.running none)) gs x =
      Prod.map (Answer.mapEach φ 0) id (fill (List.replicate fs.length (.running none)) fs x) := by
    intro x
    rw [h.length_eq, ← fill_through h, Answer.mapEach_idle]
  intro p x
  match p with
  | some (.parallel answers) =>
    simp only [Option.map, Progress.translate, parallel, Answer.mapEach_some, fill_through h]
    exact Prod.ext (conclude_mapEach threshold _) rfl
  | none | some .leaf | some (.ordered _ _) | some (.repeated _ _) | some (.timeout _ _)
  | some (.inverter _) | some (.untilFail _) =>
    simp only [Option.map, Progress.translate, parallel, hidle]
    exact Prod.ext (conclude_mapEach threshold _) rfl

section Decorators

variable {ψ : Progress → Progress} {f g : Machine σ} (h : f.Through ψ g)
include h

theorem repeatChild_through (remaining : Nat) : ∀ successes p x,
    repeatChild g remaining successes (p.map ψ) x =
      Prod.map (Answer.map (Progress.translate fun _ => ψ)) id
        (repeatChild f remaining successes p x) := by
  induction remaining with
  | zero => exact fun successes p x => rfl
  | succ remaining ih =>
    intro successes p x
    simp only [repeatChild, h p x]
    rcases f p x with ⟨(_ | _) | q, y⟩
    · rfl
    · exact ih (successes + 1) none y
    · rfl

theorem inverted_through (p : Option Progress) (x : σ) : inverted g (p.map ψ) x =
    Prod.map (Answer.map (Progress.translate fun _ => ψ)) id (inverted f p x) := by
  simp only [inverted, h p x]
  rcases f p x with ⟨_ | _, _⟩ <;> rfl

theorem untilFail_through (p : Option Progress) (x : σ) : untilFail g (p.map ψ) x =
    Prod.map (Answer.map (Progress.translate fun _ => ψ)) id (untilFail f p x) := by
  simp only [untilFail, h p x]
  rcases f p x with ⟨(_ | _) | _, _⟩ <;> rfl

theorem timeout_through (ticks spent : Nat) (p : Option Progress) (x : σ) :
    timeout g ticks spent (p.map ψ) x =
      Prod.map (Answer.map (Progress.translate fun _ => ψ)) id (timeout f ticks spent p x) := by
  by_cases hspent : ticks ≤ spent
  · simp only [timeout, if_pos hspent]
    rfl
  · simp only [timeout, if_neg hspent, h p x]
    rcases f p x with ⟨_ | _, _⟩ <;> rfl

/-- A decorator goes with that of the translated child, whichever it is. -/
theorem decorated_through (d : Decorator) :
    (decorated f d).Through (Progress.translate fun _ => ψ) (decorated g d) := by
  intro p x
  cases d with
  | inverter =>
    match p with
    | some (.inverter q) => exact inverted_through h (some q) x
    | none | some .leaf | some (.ordered _ _) | some (.parallel _) | some (.repeated _ _)
    | some (.timeout _ _) | some (.untilFail _) => exact inverted_through h none x
  | repeated count =>
    match p with
    | some (.repeated successes q) => exact repeatChild_through h _ successes (some q) x
    | none | some .leaf | some (.ordered _ _) | some (.parallel _) | some (.timeout _ _)
    | some (.inverter _) | some (.untilFail _) => exact repeatChild_through h count 0 none x
  | untilFail =>
    match p with
    | some (.untilFail q) => exact untilFail_through h q x
    | none | some .leaf | some (.ordered _ _) | some (.parallel _) | some (.repeated _ _)
    | some (.timeout _ _) | some (.inverter _) => exact untilFail_through h none x
  | timeout ticks =>
    match p with
    | some (.timeout spent q) => exact timeout_through h ticks spent (some q) x
    | none | some .leaf | some (.ordered _ _) | some (.parallel _) | some (.repeated _ _)
    | some (.inverter _) | some (.untilFail _) => exact timeout_through h ticks 0 none x

end Decorators

end Machine

/-! ## Leaves that do not look at their addresses -/

section Placeless

variable (ask : Leaf → σ → Status × σ)

theorem machines_placeless_of {cs : List Node}
    (hcs : ∀ c ∈ cs, ∀ i j, machine (fun _ => ask) c i = machine (fun _ => ask) c j) :
    ∀ i j, machines (fun _ => ask) cs i = machines (fun _ => ask) cs j := by
  induction cs with
  | nil => exact fun i j => rfl
  | cons c cs ih =>
    intro i j
    obtain ⟨hc, hrest⟩ := List.forall_mem_cons.mp hcs
    rw [machines, machines, hc i j, ih hrest (i + c.size) (j + c.size)]

/-- A machine does not look at its address, if leaves do not. -/
theorem machine_placeless (n : Node) :
    ∀ i j, machine (fun _ => ask) n i = machine (fun _ => ask) n j := by
  induction n with
  | leaf l => exact fun i j => by simp only [machine]
  | sequence cs ih | selector cs ih | parallel threshold cs ih =>
    intro i j
    rw [machine, machine, machines_placeless_of ask ih (i + 1) (j + 1)]
  | decorated d c ih =>
    intro i j
    rw [machine, machine, ih (i + 1) (j + 1)]

/-- So machines of siblings may be read at any address. -/
theorem machines_placeless (cs : List Node) (i j : NodeId) :
    machines (fun _ => ask) cs i = machines (fun _ => ask) cs j :=
  machines_placeless_of ask (fun c _ => machine_placeless ask c) i j

end Placeless

/-- The machines of two parts of siblings are those of the one, then those of the other. -/
theorem machines_append (leaf : LeafEvaluator σ) (cs ds : List Node) :
    ∀ id : NodeId, machines leaf (cs ++ ds) id =
      machines leaf cs id ++ machines leaf ds (id + Node.sizeAll cs) := by
  induction cs with
  | nil => exact fun id => rfl
  | cons c cs ih =>
    intro id
    rw [List.cons_append, machines, machines, ih, List.cons_append, Node.sizeAll, Nat.add_assoc]

namespace Node

/-- Whatever the leaves answer, the machine of the second node does what that of the first does,
its states read through some translation. -/
def Interchangeable (c d : Node) : Prop :=
  ∃ φ, ∀ {σ : Type u} (ask : Leaf → σ → Status × σ) (i j : NodeId),
    (machine (fun _ => ask) c i).Through φ (machine (fun _ => ask) d j)

/-! ## Within a tree -/

/-- A tree with one place left open. -/
inductive Context
  | hole
  | sequence (before : List Node) (inner : Context) (after : List Node)
  | selector (before : List Node) (inner : Context) (after : List Node)
  | decorated (decorator : Decorator) (inner : Context)
  | parallel (threshold : Nat) (before : List Node) (inner : Context) (after : List Node)

/-- The tree with a node at the open place. -/
def Context.plug : Context → Node → Node
  | hole, n => n
  | sequence before inner after, n => .sequence (before ++ inner.plug n :: after)
  | selector before inner after, n => .selector (before ++ inner.plug n :: after)
  | decorated d inner, n => .decorated d (inner.plug n)
  | parallel threshold before inner after, n =>
    .parallel threshold (before ++ inner.plug n :: after)

section Siblings

variable {φ : Nat → Progress → Progress} (ask : Leaf → σ → Status × σ)

/-- Siblings beside themselves, at whatever addresses. -/
theorem throughEach_same (cs : List Node) {k : Nat}
    (hφ : ∀ i, k ≤ i → i < k + cs.length → φ i = id) (a b : NodeId) :
    Machine.ThroughEach φ k (machines (fun _ => ask) cs a) (machines (fun _ => ask) cs b) := by
  induction cs generalizing k a b with
  | nil => exact .nil
  | cons c cs ih =>
    rw [List.length_cons] at hφ
    refine .cons ?_ (ih (fun i hk hi => hφ i (by omega) (by omega)) _ _)
    rw [hφ k (by omega) (by omega), machine_placeless ask c a b]
    exact Machine.through_id _

/-- One of the siblings is replaced. -/
theorem throughEach_around {ψ : Progress → Progress} {c d : Node}
    (h : ∀ i j, (machine (fun _ => ask) c i).Through ψ (machine (fun _ => ask) d j))
    (before after : List Node) (a b : NodeId) :
    Machine.ThroughEach (Function.update (fun _ => id) before.length ψ) 0
      (machines (fun _ => ask) (before ++ c :: after) a)
      (machines (fun _ => ask) (before ++ d :: after) b) := by
  rw [machines_append, machines_append]
  -- the siblings before and after stay, though the size of the node may shift their addresses
  refine (throughEach_same ask before (fun i _ hi => ?_) a b).append ?_
  · exact Function.update_of_ne (by omega) _ _
  · rw [length_machines, Nat.zero_add]
    refine .cons ?_ (throughEach_same ask after (fun i hi _ => ?_) _ _)
    · rw [Function.update_self]
      exact h _ _
    · exact Function.update_of_ne (by omega) _ _

end Siblings

/-- What may stand for each other may do so at any place of a tree. -/
theorem interchangeable_plug {c d : Node} (h : Interchangeable.{u} c d) (C : Context) :
    Interchangeable.{u} (C.plug c) (C.plug d) := by
  induction C with
  | hole => exact h
  | sequence before inner after ih | selector before inner after ih =>
    obtain ⟨φ, hφ⟩ := ih
    refine ⟨Progress.translate (Function.update (fun _ => id) before.length φ), fun ask i j => ?_⟩
    simp only [Context.plug, machine]
    exact Machine.resumed_through _ (throughEach_around ask (hφ ask) before after _ _)
  | parallel threshold before inner after ih =>
    obtain ⟨φ, hφ⟩ := ih
    refine ⟨Progress.translate (Function.update (fun _ => id) before.length φ), fun ask i j => ?_⟩
    simp only [Context.plug, machine]
    exact Machine.parallel_through _ (throughEach_around ask (hφ ask) before after _ _)
  | decorated d inner ih =>
    obtain ⟨φ, hφ⟩ := ih
    refine ⟨Progress.translate fun _ => φ, fun ask i j => ?_⟩
    simp only [Context.plug, machine]
    exact Machine.decorated_through (hφ ask _ _) d

end Node

/-! ## What an actor's run shows -/

/-- The leaves of an actor, which list the calls of the handler and their answers. -/
def ActionHandler.listening (h : ActionHandler σ) (leaf : Leaf)
    (s : (Actor × σ) × List (Leaf × Status)) :
    Status × (Actor × σ) × List (Leaf × Status) :=
  match h.evaluate leaf s.1.1 s.1.2 with
  | (status, after) => (status, after, s.2 ++ [(leaf, status)])

/-- The listening leaves hold the same conversations. -/
theorem gives_listening {h : ActionHandler σ} {talk : List Exchange} :
    ∀ {s s' : Actor × σ} (calls : List (Leaf × Status)), (Run.leaves h).Gives talk s s' →
      LeafEvaluator.Gives (fun _ => h.listening) talk (s, calls)
        (s', calls ++ talk.map fun q => (q.leaf, q.status)) := by
  induction talk with
  | nil =>
    rintro s s' calls rfl
    rw [List.map_nil, List.append_nil]
    rfl
  | cons q rest ih =>
    rintro s s' calls ⟨s₁, hq, hrest⟩
    have hanswer : h.evaluate q.leaf s.1 s.2 = (q.status, s₁) := hq
    have hlisten : h.listening q.leaf (s, calls) =
        (q.status, s₁, calls ++ [(q.leaf, q.status)]) := by
      rw [ActionHandler.listening, hanswer]
    have hlater := ih (calls ++ [(q.leaf, q.status)]) hrest
    rw [List.append_assoc] at hlater
    exact ⟨_, hlisten, hlater⟩

namespace Run

/-- The calls of the handler in a tick, in order, with their answers. -/
def calls (r : Run) (h : ActionHandler σ) (x : σ) : List (Leaf × Status) :=
  (r.exchanges h x).map fun q => (q.leaf, q.status)

/-- A tick is a run of the machine of the root over the listening leaves. -/
theorem tick_of_represents {r : Run} {p : Option Progress} (hp : r.state.Represents r.tree.root p)
    (h : ActionHandler σ) (x : σ) :
    let out := machine (fun _ => h.listening) r.tree.root 0 p ((r.actor, x), [])
    (r.tick h x).1 = out.1.status ∧
      (((r.tick h x).2.1.actor, (r.tick h x).2.2), r.calls h x) = out.2 ∧
      (r.tick h x).2.1.state.Represents r.tree.root out.1.state? := by
  have hstep : r.state.step r.tree (fun _ => h.listening) ((r.actor, x), []) =
      ((r.tick h x).1, (r.tick h x).2.1.state,
        ((r.tick h x).2.1.actor, (r.tick h x).2.2), r.calls h x) :=
    RunState.step_of_gives (gives_listening [] (r.state.gives_step r.tree (leaves h) (r.actor, x)))
  have hmachine := hp.step (fun _ => h.listening) ((r.actor, x), [])
  rwa [hstep] at hmachine

/-- Two runs of one actor over `c` and over `c'`, whose states are the same through `φ`. -/
structure Translated (φ : Progress → Progress) (c c' : Node) (r r' : Run) : Prop where
  root : r.tree.root = c
  root' : r'.tree.root = c'
  actor : r.actor = r'.actor
  state : ∃ p, r.state.Represents c p ∧ r'.state.Represents c' (p.map φ)

variable {φ : Progress → Progress} {c c' : Node} {r r' : Run}

/-- A tick of both shows the same, and leaves them so. -/
theorem Translated.tick (hr : Translated φ c c' r r') {h : ActionHandler σ}
    (hroot : (machine (fun _ => h.listening) c 0).Through φ (machine (fun _ => h.listening) c' 0))
    (x : σ) :
    ((r.tick h x).1 = (r'.tick h x).1 ∧ r.calls h x = r'.calls h x ∧
      (r.tick h x).2.2 = (r'.tick h x).2.2) ∧
    Translated φ c c' (r.tick h x).2.1 (r'.tick h x).2.1 := by
  obtain ⟨rfl, rfl, hactor, p, hp, hp'⟩ := hr
  obtain ⟨hstatus, hleft, hnext⟩ := tick_of_represents hp h x
  obtain ⟨hstatus', hleft', hnext'⟩ := tick_of_represents hp' h x
  -- what the listening leaves carry, actor and calls and all, is not translated
  rw [← hactor, hroot] at hstatus' hleft' hnext'
  rw [Prod.map_fst, Answer.status_map] at hstatus'
  rw [Prod.map_fst, Answer.state?_map] at hnext'
  obtain ⟨hleaves, hcalls⟩ := Prod.mk.inj (hleft.trans hleft'.symm)
  obtain ⟨hafter, hstate⟩ := Prod.mk.inj hleaves
  refine ⟨⟨hstatus.trans hstatus'.symm, hcalls, hstate⟩, ?_⟩
  exact ⟨congrArg _ (tree_tick ..), congrArg _ (tree_tick ..), hafter, _, hnext, hnext'⟩

/-- What two runs show in the `n`-th tick is the same: the status, the calls of the handler in
order with their answers, and what was done to the actor and to the handler's state. -/
structure SameConduct (d : Driver σ) (r r' : Run) (n : Nat) : Prop where
  status : (d.nth Run.tick r n).1 = (d.nth Run.tick r' n).1
  calls : (d.found Run.tick r n).1.calls (d.handler n) (d.found Run.tick r n).2 =
    (d.found Run.tick r' n).1.calls (d.handler n) (d.found Run.tick r' n).2
  actor : (d.nth Run.tick r n).2.1.actor = (d.nth Run.tick r' n).2.1.actor
  handler : (d.nth Run.tick r n).2.2 = (d.nth Run.tick r' n).2.2

end Run

/-- Trees that may stand for each other show the same, whoever runs them and for however long. -/
theorem Node.Interchangeable.sameConduct {c c' : Node} (h : Interchangeable.{u} c c')
    (id : ResourceId) (actor : Actor) (d : Driver σ) (n : Nat) :
    Run.SameConduct d (.start actor ⟨id, c⟩) (.start actor ⟨id, c'⟩) n := by
  obtain ⟨φ, hφ⟩ := h
  let r : Run := .start actor ⟨id, c⟩
  let r' : Run := .start actor ⟨id, c'⟩
  have hstart : Run.Translated φ c c' r r' :=
    ⟨rfl, rfl, rfl, none, RunState.represents_fresh c, RunState.represents_fresh c'⟩
  have htick := fun {r r'} (hr : Run.Translated φ c c' r r') n =>
    hr.tick (hφ (d.handler n).listening 0 0)
  obtain ⟨hthere, hstate⟩ : Run.Translated φ c c' (d.found Run.tick r n).1
      (d.found Run.tick r' n).1 ∧ (d.found Run.tick r n).2 = (d.found Run.tick r' n).2 := by
    refine Driver.found_related hstart rfl (fun n x y => congrArg (d.between n)) ?_ n
    rintro n r r' x _ hr rfl
    obtain ⟨⟨-, -, hleft⟩, hnext⟩ := htick hr n x
    exact ⟨hnext, hleft⟩
  have hother : d.nth Run.tick r' n =
      (d.found Run.tick r' n).1.tick (d.handler n) (d.found Run.tick r n).2 := by
    rw [Driver.nth, hstate]
  obtain ⟨⟨hstatus, hcalls, hleft⟩, hnext⟩ := htick hthere n (d.found Run.tick r n).2
  rw [← hother] at hstatus hleft hnext
  exact ⟨hstatus, hstate ▸ hcalls, hnext.actor, hleft⟩

end Herd
