import Mathlib

namespace Toolkit

/-!
# Computations that may refuse

`Except` as a checking monad: a check either passes or refuses with a reason.
The lemmas below take an accepted (or refused) computation apart into its
steps, so that no later proof unfolds the monad.
-/

/-- Refuse with `reason` when `bad` holds, and pass otherwise. -/
def refuseIf (bad : Prop) [Decidable bad] (reason : ε) : Except ε Unit :=
  if bad then .error reason else .ok ()

/-- Run a check on every item, in order, stopping at the first refusal. -/
def forEach (check : α → Except ε Unit) : List α → Except ε Unit
  | [] => .ok ()
  | item :: rest => do
      check item
      forEach check rest

/-- Apply a checked step to every item, in order, carrying a state along. -/
def foldEach (step : σ → α → Except ε σ) : σ → List α → Except ε σ
  | state, [] => .ok state
  | state, item :: rest => do
      let next ← step state item
      foldEach step next rest

/-- Read every item, in order, stopping at the first refusal. -/
def readEach (read : α → Except ε β) : List α → Except ε (List β)
  | [] => .ok []
  | item :: rest => do
      let value ← read item
      let values ← readEach read rest
      .ok (value :: values)

/-- A computation with every refusal's reason replaced by one. -/
def withReason (reason : ε) : Except ε α → Except ε α
  | .ok value => .ok value
  | .error _ => .error reason

@[simp] theorem withReason_eq_ok
    {reason : ε}
    {computation : Except ε α}
    {value : α} :
    withReason reason computation = .ok value ↔ computation = .ok value := by
  cases computation <;> simp [withReason]

@[simp] theorem exists_unit {holds : Unit → Prop} :
    (∃ value, holds value) ↔ holds () :=
  Unique.exists_iff

variable {first : Except ε α} {items : List α} {read : α → Except ε β}

theorem bind_eq_ok
    {next : α → Except ε β}
    {result : β} :
    (first >>= next) = .ok result ↔
      ∃ middle, first = .ok middle ∧ next middle = .ok result := by
  cases first with
  | error reason =>
    simp [bind, Except.bind]
  | ok middle =>
    simp [bind, Except.bind]

theorem bind_eq_error
    {next : α → Except ε β}
    {reason : ε} :
    (first >>= next) = .error reason ↔
      first = .error reason ∨
        ∃ middle, first = .ok middle ∧ next middle = .error reason := by
  cases first with
  | error other =>
    simp [bind, Except.bind]
  | ok middle =>
    simp [bind, Except.bind]

theorem map_eq_ok
    {change : α → β}
    {result : β} :
    first.map change = .ok result ↔
      ∃ value, first = .ok value ∧ change value = result := by
  cases first with
  | error reason =>
    simp [Except.map]
  | ok value =>
    simp [Except.map]

@[simp] theorem ok_bind
    (value : α)
    (next : α → Except ε β) :
    ((.ok value : Except ε α) >>= next) = next value :=
  rfl

@[simp] theorem error_bind
    (reason : ε)
    (next : α → Except ε β) :
    ((.error reason : Except ε α) >>= next) = .error reason :=
  rfl

@[simp] theorem pure_eq_ok (value : α) :
    (pure value : Except ε α) = .ok value :=
  rfl

@[simp] theorem refuseIf_eq_ok
    {bad : Prop} [Decidable bad]
    {reason : ε} :
    refuseIf bad reason = .ok () ↔ ¬ bad := by
  by_cases holds : bad <;> simp [refuseIf, holds]

@[simp] theorem refuseIf_eq_error
    {bad : Prop} [Decidable bad]
    {reason other : ε} :
    refuseIf bad reason = .error other ↔ bad ∧ reason = other := by
  by_cases holds : bad <;> simp [refuseIf, holds]

theorem forEach_eq_ok
    {check : α → Except ε Unit}
    {items : List α} :
    forEach check items = .ok () ↔
      ∀ item ∈ items, check item = .ok () := by
  induction items with
  | nil =>
    simp [forEach]
  | cons item rest inductionHypothesis =>
    simp [forEach, bind_eq_ok, inductionHypothesis]

/-- Folding over two lists folds over one, then over the other. -/
theorem foldEach_append
    (step : σ → α → Except ε σ)
    (state : σ)
    (first second : List α) :
    foldEach step state (first ++ second) =
      foldEach step state first >>=
        fun middle => foldEach step middle second := by
  induction first generalizing state with
  | nil =>
    simp [foldEach]
  | cons item rest inductionHypothesis =>
    cases stepped : step state item with
    | error reason =>
      simp [foldEach, stepped]
    | ok next =>
      simp [foldEach, stepped, inductionHypothesis]

theorem readEach_eq_ok
    {values : List β} :
    readEach read items = .ok values ↔
      List.Forall₂ (fun item value => read item = .ok value)
        items values := by
  induction items generalizing values with
  | nil =>
    cases values <;> simp [readEach]
  | cons item rest inductionHypothesis =>
    cases values with
    | nil =>
      simp [readEach, bind_eq_ok]
    | cons value others =>
      simp [readEach, bind_eq_ok, inductionHypothesis]

/-- All items are read when each of them can be. -/
theorem exists_readEach
    {items : List α} :
    (∃ values, readEach read items = .ok values) ↔
      ∀ item ∈ items, ∃ value, read item = .ok value := by
  induction items with
  | nil =>
    simp [readEach]
  | cons item rest inductionHypothesis =>
    simp only [readEach, bind_eq_ok, List.mem_cons, forall_eq_or_imp,
      ← inductionHypothesis]
    constructor
    · rintro ⟨_, value, headRead, values, restRead, _⟩
      exact ⟨⟨value, headRead⟩, values, restRead⟩
    · rintro ⟨⟨value, headRead⟩, values, restRead⟩
      exact ⟨_, value, headRead, values, restRead, rfl⟩

theorem readEach_eq_map
    {value : α → β}
    (reads : ∀ item ∈ items, read item = .ok (value item)) :
    readEach read items = .ok (items.map value) := by
  induction items with
  | nil =>
    rfl
  | cons item rest inductionHypothesis =>
    have headRead := reads item (by simp)
    have restRead :=
      inductionHypothesis
        (fun later member => reads later (by simp [member]))
    simp [readEach, headRead, restRead]

/--
Reading that gives a value back exactly from what was written of it, when the
value is allowed, reads lists likewise.
-/
theorem readEach_eq_ok_map
    {written : β → α}
    {allowed : β → Prop}
    (reads :
      ∀ {item : α} {value : β},
        read item = .ok value ↔ item = written value ∧ allowed value)
    {values : List β} :
    readEach read items = .ok values ↔
      items = values.map written ∧ ∀ value ∈ values, allowed value := by
  induction items generalizing values with
  | nil =>
    cases values <;> simp [readEach]
  | cons item rest inductionHypothesis =>
    cases values with
    | nil =>
      simp [readEach, bind_eq_ok]
    | cons value others =>
      simp only [readEach, bind_eq_ok, Except.ok.injEq,
        List.cons.injEq, reads, inductionHypothesis, List.map_cons,
        List.mem_cons, forall_eq_or_imp]
      constructor
      · rintro ⟨_, ⟨rfl, headAllowed⟩, _, ⟨rfl, restAllowed⟩, rfl, rfl⟩
        exact ⟨⟨rfl, rfl⟩, headAllowed, restAllowed⟩
      · rintro ⟨⟨rfl, rfl⟩, headAllowed, restAllowed⟩
        exact ⟨_, ⟨rfl, headAllowed⟩, _, ⟨rfl, restAllowed⟩, rfl, rfl⟩

theorem readEach_map
    (read : β → Except ε γ)
    (written : α → β)
    (items : List α) :
    readEach read (items.map written) =
      readEach (fun item => read (written item)) items := by
  induction items with
  | nil =>
    rfl
  | cons item rest inductionHypothesis =>
    simp only [List.map_cons, readEach, inductionHypothesis]

end Toolkit
