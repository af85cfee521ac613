import Herd.Run.Step

/-!
# Logs of evaluations

A `Log` lists evaluations of nodes, the latest first: an evaluation stands in front of those that
were made in the course of it. One that is done ends whatever was in progress in its subtree. What a
node went through since is its `activation`, and it is in progress (`Log.Open`) while it has been
evaluated since.

`Log.Adds P h h'` says that `h'` is `h` with more evaluations in front, each of which is `P` with
regard to the log before it. What is added in one subtree is nothing to any other
(`Log.Adds.since_eq`).
-/

namespace Herd

/-- An evaluation of a node. -/
structure Evaluation where
  tick : Nat
  /-- The address of the node. -/
  id : Nat
  node : Node
  /-- The note that the node had when its evaluation began. -/
  note : Option NodeMemory
  status : Status

namespace Evaluation

/-- Whether the evaluation ends what was in progress at an address: it is done, and the address lies
in its subtree. -/
def ends (e : Evaluation) (a : Nat) : Bool :=
  e.status.isDone && !Visit.outside e.id e.node.size a

/-- The evaluation of a timeout that had spent its ticks. -/
def Expired (e : Evaluation) : Prop :=
  ∃ ticks child started, e.node = .decorated (.timeout ticks) child ∧
    e.note = some (.startedAt started) ∧ ticks ≤ e.tick - started

variable {e : Evaluation} {a : Nat}

/-- An evaluation ends all activations in the subtree of its node, if the node is done. -/
theorem ends_iff :
    e.ends a = true ↔ e.status.isDone = true ∧ e.id ≤ a ∧ a < e.id + e.node.size := by
  simp [ends, Visit.outside]

theorem ends_of_running (h : e.status = .running) : e.ends a = false := by
  rw [ends, h]
  rfl

end Evaluation

/-- Evaluations, the latest first. -/
abbrev Log := List Evaluation

namespace Log

/-- The evaluations since the last that ended what was in progress at an address. -/
def activation (a : Nat) (h : Log) : Log := h.takeWhile fun e => !e.ends a

/-- The evaluations of the node at `b` in the activation of the node at `a`. -/
def since (a b : Nat) (h : Log) : Log := (h.activation a).filter (·.id = b)

/-- The node at an address is in progress. -/
def Open (a : Nat) (h : Log) : Prop := h.since a a ≠ []

/-- The ticks of evaluations, in order. -/
def ticks (h : Log) : List Nat := (h.map (·.tick)).reverse

/-- Evaluations that all answered `running`. -/
def AllRunning (h : Log) : Prop := ∀ e ∈ h, e.status = .running

@[simp] theorem ticks_nil : ticks [] = [] := rfl

@[simp] theorem ticks_cons (e : Evaluation) (h : Log) : ticks (e :: h) = h.ticks ++ [e.tick] := by
  rw [ticks, List.map_cons, List.reverse_cons]
  rfl

theorem length_ticks (h : Log) : h.ticks.length = h.length := by
  rw [ticks, List.length_reverse, List.length_map]

theorem allRunning_nil : AllRunning [] := fun _ he => absurd he List.not_mem_nil

theorem AllRunning.cons {e : Evaluation} {h : Log} (he : e.status = .running)
    (hh : AllRunning h) : AllRunning (e :: h) :=
  List.forall_mem_cons.mpr ⟨he, hh⟩

variable {e : Evaluation} {a b : Nat} {h h' h'' : Log}

/-- After an evaluation that ends the activation, nothing has happened since. -/
theorem since_cons_of_ends (he : e.ends a = true) (b : Nat) : since a b (e :: h) = [] := by
  rw [since, activation, List.takeWhile_cons_of_neg (by simp [he])]
  rfl

/-- An evaluation of the node itself counts. -/
theorem since_cons_self (he : e.ends a = false) (hid : e.id = b) :
    since a b (e :: h) = e :: h.since a b := by
  rw [since, activation, List.takeWhile_cons_of_pos (by simp [he]),
    List.filter_cons_of_pos (by simp [hid])]
  rfl

theorem since_cons_of_ne (he : e.ends a = false) (hid : e.id ≠ b) :
    since a b (e :: h) = h.since a b := by
  rw [since, activation, List.takeWhile_cons_of_pos (by simp [he]),
    List.filter_cons_of_neg (by simp [hid])]
  rfl

/-- A node that answered `running` is in progress. -/
theorem open_cons (he : e.status = .running) (hid : e.id = a) : Open a (e :: h) := by
  rw [Open, since_cons_self (Evaluation.ends_of_running he) hid]
  exact List.cons_ne_nil _ _

/-! ## What is added to a log -/

/-- From `h` to `h'` evaluations were added, each of them `P` with regard to those before it. -/
inductive Adds (P : Evaluation → Log → Prop) (h : Log) : Log → Prop
  | refl : Adds P h h
  | cons {h' : Log} (hadds : Adds P h h') {e : Evaluation} (he : P e h') : Adds P h (e :: h')

variable {P Q : Evaluation → Log → Prop}

theorem Adds.trans (h₁ : Adds P h h') (h₂ : Adds P h' h'') : Adds P h h'' := by
  induction h₂ with
  | refl => exact h₁
  | cons _ he ih => exact ih.cons he

theorem Adds.mono (hadds : Adds P h h') (hPQ : ∀ {e h}, P e h → Q e h) : Adds Q h h' := by
  induction hadds with
  | refl => exact .refl
  | cons _ he ih => exact ih.cons (hPQ he)

/-- Each evaluation that was added is as it was to be. -/
theorem Adds.split {post pre : Log} (hadds : Adds P [] (post ++ e :: pre)) :
    P e pre ∧ Adds P [] pre := by
  induction post with
  | nil =>
    rw [List.nil_append] at hadds
    cases hadds with
    | cons hpre he => exact ⟨he, hpre⟩
  | cons d post ih =>
    cases hadds with
    | cons hrest _ => exact ih hrest

/-- The evaluation is of a node whose subtree takes addresses from `lo` up to `hi` only. -/
def Within (lo hi : Nat) (e : Evaluation) (_ : Log) : Prop :=
  lo ≤ e.id ∧ e.id + e.node.size ≤ hi

variable {lo hi : Nat}

/-- An evaluation within a region ends no activation outside. -/
theorem Within.ends_eq_false (he : Within lo hi e h) (ha : a < lo ∨ hi ≤ a) : e.ends a = false := by
  obtain ⟨hlo, hhi⟩ := he
  rw [← Bool.not_eq_true, Evaluation.ends_iff]
  rintro ⟨-, hle, hlt⟩
  omega

theorem Within.id_ne (he : Within lo hi e h) (hb : b < lo ∨ hi ≤ b) : e.id ≠ b := by
  obtain ⟨hlo, hhi⟩ := he
  have hpos := e.node.size_pos
  omega

/-- What is added in one subtree is nothing to nodes elsewhere. -/
theorem Adds.since_eq (hadds : Adds (Within lo hi) h h') (ha : a < lo ∨ hi ≤ a)
    (hb : b < lo ∨ hi ≤ b) : h'.since a b = h.since a b := by
  induction hadds with
  | refl => rfl
  | cons _ he ih => exact (since_cons_of_ne (he.ends_eq_false ha) (he.id_ne hb)).trans ih

/-! ## Turning to a node in progress -/

/-- The first evaluation after the log `h` that concerns the node at `a` is one of it, or that of a
timeout above it which expired. -/
def Met (a : Nat) (h h' : Log) : Prop :=
  ∃ (e : Evaluation) (later between : Log), h' = later ++ e :: (between ++ h) ∧
    (e.id = a ∨ (e.Expired ∧ e.ends a = true)) ∧ ∀ d ∈ between, d.id ≠ a ∧ d.ends a = false

/-- A node that was turned to was turned to, whatever comes after. -/
theorem Met.later (hmet : Met a h h') (hadds : Adds P h' h'') : Met a h h'' := by
  induction hadds with
  | refl => exact hmet
  | @cons _ _ d _ ih =>
    obtain ⟨e, later, between, rfl, hrest⟩ := ih
    exact ⟨e, d :: later, between, rfl, hrest⟩

/-- What is added elsewhere puts nothing off. -/
theorem Met.earlier (hadds : Adds (Within lo hi) h h') (ha : a < lo ∨ hi ≤ a)
    (hmet : Met a h' h'') : Met a h h'' := by
  have hbetween : ∃ between, h' = between ++ h ∧ ∀ d ∈ between, d.id ≠ a ∧ d.ends a = false := by
    clear hmet
    induction hadds with
    | refl => exact ⟨[], rfl, fun _ hd => absurd hd List.not_mem_nil⟩
    | @cons _ _ d hd ih =>
      obtain ⟨between, rfl, hrest⟩ := ih
      exact ⟨d :: between, rfl,
        List.forall_mem_cons.mpr ⟨⟨hd.id_ne ha, hd.ends_eq_false ha⟩, hrest⟩⟩
  obtain ⟨between, rfl, hquiet⟩ := hbetween
  obtain ⟨e, later, between', rfl, he, hquiet'⟩ := hmet
  exact ⟨e, later, between' ++ between, by rw [List.append_assoc], he,
    List.forall_mem_append.mpr ⟨hquiet', hquiet⟩⟩

/-- The evaluation of the node itself. -/
theorem Met.own {h : Log} (hid : e.id = a) : Met a h (e :: h) :=
  ⟨e, [], [], rfl, .inl hid, fun _ hd => absurd hd List.not_mem_nil⟩

/-- The evaluation of a timeout above that expired. -/
theorem Met.expired {h : Log} (he : e.Expired) (hends : e.ends a = true) : Met a h (e :: h) :=
  ⟨e, [], [], rfl, .inr ⟨he, hends⟩, fun _ hd => absurd hd List.not_mem_nil⟩

end Log

end Herd
