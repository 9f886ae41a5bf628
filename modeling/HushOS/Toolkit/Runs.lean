import Mathlib.Data.List.Basic

namespace Toolkit

open List

/-!
# Runs

A system that takes one step at a time, from any state, whatever its steps are.
What each step keeps, a run of such steps keeps.
-/

namespace Runs

universe u v

variable {σ : Type u} {α : Type v}

/-- The state after a run of steps. -/
def run (step : σ → α → σ) (state : σ) (steps : List α) : σ :=
  steps.foldl step state

/-- Whether every step of a run meets a condition in the state it finds. -/
def Each (step : σ → α → σ) (meets : σ → α → Prop) : σ → List α → Prop
  | _, [] => True
  | state, next :: rest =>
    meets state next ∧ Each step meets (step state next) rest

/-- Where each step's condition can be decided, a run's can. -/
instance Each.decidable
    (step : σ → α → σ)
    (meets : σ → α → Prop)
    [∀ state next, Decidable (meets state next)] :
    ∀ state steps, Decidable (Each step meets state steps)
  | _, [] => isTrue trivial
  | state, next :: rest =>
    have := Each.decidable step meets (step state next) rest
    inferInstanceAs (Decidable (meets state next ∧
      Each step meets (step state next) rest))

theorem run_append
    (step : σ → α → σ)
    (state : σ)
    (first second : List α) :
    run step state (first ++ second) =
      run step (run step state first) second :=
  foldl_append

variable {meets : σ → α → Prop} {state : σ} {step : σ → α → σ}

theorem each_append
    {first second : List α} :
    Each step meets state (first ++ second) ↔
      Each step meets state first ∧
        Each step meets (run step state first) second := by
  induction first generalizing state with
  | nil =>
    exact ⟨fun each => ⟨trivial, each⟩, fun each => each.2⟩
  | cons next rest inductionHypothesis =>
    rw [cons_append, Each, inductionHypothesis, Each, and_assoc]
    rfl

/-- Each step meets a condition when it does after every prefix. -/
theorem each_iff
    {steps : List α} :
    Each step meets state steps ↔
      ∀ earlier next, earlier ++ [next] <+: steps →
        meets (run step state earlier) next := by
  induction steps generalizing state with
  | nil =>
    refine ⟨fun _ earlier next started => ?_, fun _ => trivial⟩
    have nothing := prefix_nil.mp started
    simp at nothing
  | cons first rest inductionHypothesis =>
    constructor
    · rintro ⟨meetsFirst, each⟩ earlier next started
      cases earlier with
      | nil =>
        obtain ⟨rfl, _⟩ := cons_prefix_cons.mp started
        exact meetsFirst
      | cons head tail =>
        obtain ⟨rfl, further⟩ := cons_prefix_cons.mp started
        exact inductionHypothesis.mp each tail next further
    · intro all
      refine ⟨all [] first (cons_prefix_cons.mpr
        ⟨rfl, nil_prefix⟩), inductionHypothesis.mpr ?_⟩
      intro earlier next started
      exact all (first :: earlier) next
        (cons_prefix_cons.mpr ⟨rfl, started⟩)

theorem keeps_of_each
    (invariant : σ → Prop)
    (keeps : ∀ state next, meets state next → invariant state →
      invariant (step state next))
    {steps : List α}
    (each : Each step meets state steps)
    (holds : invariant state) :
    invariant (run step state steps) := by
  induction steps generalizing state with
  | nil =>
    exact holds
  | cons next rest inductionHypothesis =>
    exact inductionHypothesis each.2 (keeps state next each.1 holds)

theorem keeps_of_step
    (invariant : σ → Prop)
    (keeps : ∀ state next, invariant state → invariant (step state next))
    (steps : List α)
    (holds : invariant state) :
    invariant (run step state steps) := by
  induction steps generalizing state with
  | nil =>
    exact holds
  | cons next rest inductionHypothesis =>
    exact inductionHypothesis (keeps state next holds)

/--
What is read at a key after a run of writes, each at its own: what the one at
that key makes of what was read there.
-/
theorem read_run
    {κ : Type u}
    {β : Type v}
    [DecidableEq κ]
    (read : σ → κ → β)
    (make : α → β → β)
    {write : σ → α → σ}
    {key : α → κ}
    (writes : ∀ state item at_, read (write state item) at_ =
      if at_ = key item then make item (read state at_) else read state at_)
    {items : List α}
    (once : (items.map key).Nodup)
    (state : σ)
    (at_ : κ) :
    read (run write state items) at_ =
      (items.find? fun item => key item = at_).elim (read state at_)
        fun item => make item (read state at_) := by
  induction items generalizing state with
  | nil =>
    rfl
  | cons first rest inductionHypothesis =>
    rw [map_cons, nodup_cons] at once
    rw [show run write state (first :: rest) =
      run write (write state first) rest from rfl,
      inductionHypothesis once.2, writes, find?_cons]
    by_cases same : at_ = key first
    · subst same
      have absent : (rest.find? fun item => key item = key first) = none := by
        refine find?_eq_none.mpr fun item member isFirst => ?_
        exact once.1 (of_decide_eq_true isFirst ▸
          mem_map_of_mem member)
      rw [absent, decide_eq_true rfl]
      simp
    · rw [if_neg same, decide_eq_false (Ne.symm same)]

end Runs

end Toolkit
