import HushOS.Acceptance.Rules

namespace HushOS

open Toolkit List OrderedMap

/-!
# The pass, step by step

`Passes` says how a state comes to hold a list of rosters: successions are
taken while one may be, and a roster is held only once none may.  The pass of
the source is that and no more: what it accepts passes (`passes_of_pass`), and
what passes it accepts (`exists_pass_of_passes`), up to what it remembers of
refusals.
-/

/-- The steps by which a state comes to hold a list of rosters. -/
inductive Primitives.Passes (P : Primitives) :
    State → List (Served Roster) → State → Prop where
  | settled
      {state : State}
      (nothing : P.Settled state) :
      Passes P state [] state
  | note
      {state after : State}
      {path : List (Served Roster)}
      (refused : OrderedMap Nat CryptoError)
      (waiting : OrderedMap Nat (List Rival))
      (rest : Passes P { state with refused, waiting } path after) :
      Passes P state path after
  | take
      {state after : State}
      {path : List (Served Roster)}
      (served : Served GroupKeySuccession)
      (chosen :
        state.current.find? (P.eligible state) = some served)
      (single :
        state.keyMarks.get? (state.keys.length + 1) = none →
          (state.current.filter
            (P.isAdmissible state state.keys.length)).length ≤ 1)
      (rest : Passes P (state.take served) path after) :
      Passes P state path after
  | hold
      {state after : State}
      (served : Served Roster)
      {path : List (Served Roster)}
      (nothing : P.Settled state)
      (holds :
        RosterHolds P state served.value served.statement
          (some served.copies) state.held.getLast?)
      (rest : Passes P (state.hold served) path after) :
      Passes P state (served :: path) after

section

variable {P : Primitives}

@[simp] theorem Primitives.isAdmissible_note
    (state : State)
    (refused : OrderedMap Nat CryptoError)
    (waiting : OrderedMap Nat (List Rival))
    (oldVersion : Nat)
    (served : Served GroupKeySuccession) :
    P.isAdmissible { state with refused, waiting } oldVersion served =
      P.isAdmissible state oldVersion served :=
  rfl

@[simp] theorem Primitives.eligible_note
    (state : State)
    (refused : OrderedMap Nat CryptoError)
    (waiting : OrderedMap Nat (List Rival)) :
    P.eligible { state with refused, waiting } = P.eligible state :=
  rfl

@[simp] theorem rosterHolds_note
    (state : State)
    (refused : OrderedMap Nat CryptoError)
    (waiting : OrderedMap Nat (List Rival))
    {roster : Roster}
    {statement : Bytes}
    {copies : Option (List SignedGroupStatement)}
    {previous : Option Held} :
    RosterHolds P { state with refused, waiting } roster statement copies
        previous ↔
      RosterHolds P state roster statement copies previous := by
  constructor
  · rintro ⟨kind, reached, current, holder, stays, keeps, signed, due,
      entries, areas⟩
    exact ⟨kind, reached, current, holder, stays, keeps, signed, due,
      entries, areas⟩
  · rintro ⟨kind, reached, current, holder, stays, keeps, signed, due,
      entries, areas⟩
    exact ⟨kind, reached, current, holder, stays, keeps, signed, due,
      entries, areas⟩

/-- The key versions candidates are served from that are still to come. -/
def State.toCome (state : State) : List Nat :=
  state.candidates.keys.filter fun version => state.keys.length ≤ version

theorem mem_candidates_of_current
    {state : State}
    {served : Served GroupKeySuccession}
    (member : served ∈ state.current) :
    served ∈ state.candidates.listAt state.keys.length := by
  simpa [State.current] using member

/-- Taking a statement leaves fewer to come. -/
theorem length_toCome_take
    {state : State}
    {served : Served GroupKeySuccession}
    (member : served ∈ state.current) :
    (state.take served).toCome.length < state.toCome.length := by
  have listed : state.keys.length ∈ state.candidates.keys := by
    have candidates := mem_candidates_of_current member
    rw [OrderedMap.mem_keys]
    cases found : state.candidates.get? state.keys.length with
    | none =>
      simp [OrderedMap.listAt, found] at candidates
    | some list =>
      exact ⟨list, rfl⟩
  have sublist :
      (state.take served).toCome.Sublist state.toCome := by
    simp only [State.toCome, State.take, length_append,
      length_singleton]
    refine monotone_filter_right _ ?_
    intro version later
    simp only [decide_eq_true_eq] at later ⊢
    omega
  refine lt_of_le_of_ne sublist.length_le ?_
  intro same
  have equal := sublist.eq_of_length same
  have inOld : state.keys.length ∈ state.toCome := by
    simp [State.toCome, listed]
  rw [← equal] at inOld
  simp [State.toCome, State.take] at inOld

variable {path : List (Served Roster)} {state after : State}

/-- Establishing with fuel enough ends with nothing eligible. -/
theorem Primitives.passes_of_establishUpTo
    {fuel : Nat}
    {state middle after : State}
    (enough : state.toCome.length < fuel)
    (established : P.establishUpTo fuel state = .ok middle)
    (rest : P.Settled middle → P.Passes middle path after) :
    P.Passes state path after := by
  induction fuel generalizing state with
  | zero =>
    omega
  | succ fuel inductionHypothesis =>
    simp only [Primitives.establishUpTo, bind_eq_ok] at established
    obtain ⟨⟨next, taken⟩, once, established⟩ := established
    obtain ⟨refused, waiting, ⟨rfl, rfl, nothing⟩ |
      ⟨rfl, served, rfl,
      chosen, single⟩⟩ := P.establishNext_eq_ok once
    · simp only [Bool.false_eq_true, ↓reduceIte, Except.ok.injEq]
        at established
      subst established
      exact .note refused waiting (rest nothing)
    · simp only [↓reduceIte] at established
      refine .note refused waiting (.take served chosen single ?_)
      refine inductionHypothesis ?_ established
      have used :
          (State.take { state with refused, waiting } served).toCome.length <
            state.toCome.length :=
        length_toCome_take (mem_of_find?_eq_some chosen)
      omega

theorem Primitives.passes_of_establishAll
    {state middle after : State}
    (established : P.establishAll state = .ok middle)
    (rest : P.Settled middle → P.Passes middle path after) :
    P.Passes state path after := by
  refine P.passes_of_establishUpTo ?_ established rest
  have few : state.toCome.length ≤ state.candidates.keys.length :=
    length_filter_le _ _
  rw [length_keys] at few
  omega

theorem Primitives.passes_of_foldEach
    (nothing : P.Settled state)
    (passed : foldEach P.passRoster state path = .ok after) :
    P.Passes state path after := by
  induction path generalizing state with
  | nil =>
    simp only [foldEach, Except.ok.injEq] at passed
    subst passed
    exact .settled nothing
  | cons served rest inductionHypothesis =>
    simp only [foldEach, Primitives.passRoster, bind_eq_ok, exists_unit,
      P.rosterRules_eq_ok, throwing_eq_ok] at passed
    obtain ⟨middle, ⟨holds, established⟩, passed⟩ := passed
    exact .hold served nothing holds
      (P.passes_of_establishAll established
        fun settled => inductionHypothesis settled passed)

theorem Primitives.passes_of_pass
    {start after : State}
    (passed : P.pass start path = .ok after) :
    P.Passes start path after := by
  simp only [Primitives.pass, bind_eq_ok, throwing_eq_ok] at passed
  obtain ⟨middle, established, passed⟩ := passed
  exact P.passes_of_establishAll established
    fun settled => P.passes_of_foldEach settled passed

/-- Whether every candidate's new key is one a digest can be taken of. -/
def Primitives.Readable (P : Primitives) (state : State) : Prop :=
  ∀ version, ∀ served ∈ state.candidates.listAt version,
    ∃ digest, P.groupKeyDigest served.value.newKey = .ok digest

/-- Where nothing is eligible the step changes only its notes. -/
theorem Primitives.establishNext_of_settled
    {state : State}
    (readable : P.Readable state)
    (nothing : P.Settled state) :
    ∃ refused waiting,
      P.establishNext state =
        .ok ({ state with refused, waiting }, false) := by
  have single :
      state.keyMarks.get? (state.keys.length + 1) = none →
        (state.current.filter
          (P.isAdmissible state state.keys.length)).length ≤ 1 := by
    intro unmarked
    have empty :
        state.current.filter
          (P.isAdmissible state state.keys.length) = [] := by
      rw [filter_eq_nil_iff]
      intro served member admissible
      have ineligible := nothing served member
      simp [Primitives.eligible, admissible, unmarked] at ineligible
    simp [empty]
  obtain ⟨after, next, chosen⟩ := P.exists_nextSuccession
    (fun served member => readable _ _ (mem_candidates_of_current member))
    single
  obtain ⟨⟨refused, waiting, rfl⟩, nextIs, _⟩ :=
    P.nextSuccession_eq_ok chosen
  have noneFound : state.current.find? (P.eligible state) = none := by
    rw [find?_eq_none]
    intro served member
    simp [nothing served member]
  rw [noneFound] at nextIs
  subst nextIs
  exact ⟨refused, waiting, by
    simp [Primitives.establishNext, chosen]⟩

theorem Primitives.establishNext_of_eligible
    {state : State}
    {served : Served GroupKeySuccession}
    (readable : P.Readable state)
    (isNext : state.current.find? (P.eligible state) = some served)
    (single :
      state.keyMarks.get? (state.keys.length + 1) = none →
        (state.current.filter
          (P.isAdmissible state state.keys.length)).length ≤ 1) :
    ∃ refused waiting,
      P.establishNext state =
        .ok (State.take { state with refused, waiting } served, true) := by
  obtain ⟨after, next, chosen⟩ := P.exists_nextSuccession
    (fun served member => readable _ _ (mem_candidates_of_current member))
    single
  obtain ⟨⟨refused, waiting, rfl⟩, nextIs, _⟩ :=
    P.nextSuccession_eq_ok chosen
  rw [isNext] at nextIs
  subst nextIs
  exact ⟨refused, waiting, by
    simp [Primitives.establishNext, chosen]⟩

theorem length_toCome_le (state : State) :
    state.toCome.length < state.candidates.size + 1 := by
  have few : state.toCome.length ≤ state.candidates.keys.length :=
    length_filter_le _ _
  rw [length_keys] at few
  omega

/-- A pass in the relation is one that the loop carries out. -/
theorem Primitives.exists_established_of_passes
    (passes : P.Passes state path after)
    (readable : P.Readable state)
    (refused : OrderedMap Nat CryptoError)
    (waiting : OrderedMap Nat (List Rival))
    {fuel : Nat}
    (enough : state.toCome.length < fuel) :
    ∃ refused' waiting',
      (do
        let middle ← throwing
          (P.establishUpTo fuel { state with refused, waiting })
        foldEach P.passRoster middle path) =
        .ok { after with refused := refused', waiting := waiting' } := by
  induction passes generalizing refused waiting fuel with
  | @settled state nothing =>
    obtain ⟨fuel, rfl⟩ := Nat.exists_eq_succ_of_ne_zero
      (Nat.ne_zero_of_lt enough)
    obtain ⟨refused', waiting', established⟩ :=
      @Primitives.establishNext_of_settled P
        { state with refused, waiting } readable nothing
    exact ⟨refused', waiting', by
      simp [Primitives.establishUpTo, established, throwing, foldEach]⟩
  | note _ _ _ inductionHypothesis =>
    exact inductionHypothesis readable refused waiting enough
  | @take state after path served chosen single _ inductionHypothesis =>
    obtain ⟨fuel, rfl⟩ := Nat.exists_eq_succ_of_ne_zero
      (Nat.ne_zero_of_lt enough)
    obtain ⟨refused', waiting', established⟩ :=
      @Primitives.establishNext_of_eligible P
        { state with refused, waiting } served readable chosen single
    have fewer : (state.take served).toCome.length < fuel := by
      have used := length_toCome_take (mem_of_find?_eq_some chosen)
      omega
    obtain ⟨refused'', waiting'', accepted⟩ :=
      inductionHypothesis readable refused' waiting' fewer
    refine ⟨refused'', waiting'', ?_⟩
    simp only [Primitives.establishUpTo, established, ok_bind, ↓reduceIte]
    exact accepted
  | @hold state after served path nothing holds _ inductionHypothesis =>
    obtain ⟨fuel, rfl⟩ := Nat.exists_eq_succ_of_ne_zero
      (Nat.ne_zero_of_lt enough)
    obtain ⟨refused', waiting', established⟩ :=
      @Primitives.establishNext_of_settled P
        { state with refused, waiting } readable nothing
    obtain ⟨refused'', waiting'', accepted⟩ :=
      inductionHypothesis readable refused' waiting'
        (length_toCome_le (state.hold served))
    have judged :
        P.rosterRules { state with refused := refused', waiting := waiting' }
          served.value served.statement (some served.copies)
          state.held.getLast? = .ok () :=
      P.rosterRules_eq_ok.mpr ((rosterHolds_note _ _ _).mpr holds)
    refine ⟨refused'', waiting'', ?_⟩
    simp only [Primitives.establishUpTo, established, ok_bind,
      Bool.false_eq_true, ↓reduceIte, throwing, foldEach,
      Primitives.passRoster, judged]
    exact accepted

theorem Primitives.exists_pass_of_passes
    (passes : P.Passes state path after)
    (readable : P.Readable state) :
    ∃ refused waiting,
      P.pass state path = .ok { after with refused, waiting } :=
  P.exists_established_of_passes passes readable state.refused state.waiting
    (length_toCome_le state)

end

end HushOS
