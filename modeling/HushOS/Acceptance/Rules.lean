import HushOS.Acceptance.Accept

namespace HushOS

open Toolkit List

/-!
# What the judgements accept

One lemma for each judgement says everything it accepts, so that later proofs
never unfold one: `rosterRules_eq_ok` for a roster, `isAdmissible_iff` for a
served succession, and `nextSuccession_eq_ok_iff` for the choice among them.
-/

/-- A roster that keeps every rule at the position after `previous`. -/
structure RosterHolds
    (P : Primitives)
    (state : State)
    (roster : Roster)
    (statement : Bytes)
    (copies : Option (List SignedGroupStatement))
    (previous : Option Held) : Prop where
  kind : ∀ before ∈ previous, roster.kind = before.roster.kind
  reached : roster.groupKeyVersion ≤ state.keys.length
  current : ∀ out ∈ state.verifiedAt roster.groupKeyVersion,
    roster.rosterVersion ≤ out.lastRosterVersion
  holder :
    activeWith
      (rosterEntry ((previous.map Held.roster).getD roster)
        roster.signerUserId) .members = true
  stays : active (rosterEntry roster roster.signerUserId) = true
  keeps : ∃ entry ∈ roster.members, activeWith (some entry) .members = true
  signed : ∀ served ∈ copies, ∃ copy ∈ served,
    (∃ key ∈ state.keys[roster.groupKeyVersion - 1]?,
      P.verifyGroup statement copy.signature key = true) ∧
    P.signedByMember ((previous.map Held.roster).getD roster)
      roster.signerUserId copy state.mlDsaKeys = true
  due : ∀ before ∈ previous, before.droppedHolder = true →
    (state.verifiedAt before.roster.groupKeyVersion).map
        Verified.lastRosterVersion =
      some before.roster.rosterVersion
  entries : ∀ before ∈ previous,
    checkEntries before.roster roster = .ok ()
  areas : AreasFollow state.areas (previous.map Held.roster) roster

/-- A served succession that holds from a key version. -/
structure SuccessionHolds
    (P : Primitives)
    (state : State)
    (served : Served GroupKeySuccession)
    (oldVersion : Nat) : Prop where
  groupId : served.value.groupId = state.groupId
  replaces : state.keys[oldVersion - 1]? = some served.value.oldKey
  new : served.value.newKey ∉ state.keys
  tied : ∃ last,
    state.held.find? (fun held =>
        held.roster.rosterVersion = served.value.lastRosterVersion) =
      some last ∧
    last.digest = served.value.lastRosterDigest ∧
    activeWith (rosterEntry last.roster served.value.signerUserId) .members =
      true ∧
    ∃ copy ∈ served.copies,
      P.verifyGroup served.statement copy.signature served.value.oldKey =
        true ∧
      P.signedByMember last.roster served.value.signerUserId copy
        state.mlDsaKeys = true
  ordered : ∀ into ∈ state.verifiedAt (oldVersion - 1),
    into.lastRosterVersion ≤ served.value.lastRosterVersion

section

variable {P : Primitives}

variable {state : State}

/-- The signatures pass when one copy verifies for group and signer. -/
theorem Primitives.checkSignatures_eq_ok
    {roster : Roster}
    {statement : Bytes}
    {copies : List SignedGroupStatement}
    {authority : Roster} :
    P.checkSignatures state roster statement copies authority = .ok () ↔
      ∃ copy ∈ copies,
        (∃ key ∈ state.keys[roster.groupKeyVersion - 1]?,
          P.verifyGroup statement copy.signature key = true) ∧
        P.signedByMember authority roster.signerUserId copy
          state.mlDsaKeys = true := by
  simp only [Primitives.checkSignatures, bind_eq_ok, exists_unit,
    refuseIf_eq_ok, Bool.not_eq_false, any_eq_true, mem_filter,
    Option.any_eq_true]
  constructor
  · rintro ⟨_, copy, ⟨member, grouped⟩, signed⟩
    exact ⟨copy, member, by simpa using grouped, signed⟩
  · rintro ⟨copy, member, grouped, signed⟩
    refine ⟨ne_nil_of_mem (mem_filter.mpr ⟨member, ?_⟩), copy,
      ⟨member, by simpa using grouped⟩, signed⟩
    rw [Option.any_eq_true]
    exact grouped

/-- The roster rules check exactly the relation stated for them. -/
theorem Primitives.rosterRules_eq_ok
    {roster : Roster}
    {statement : Bytes}
    {copies : Option (List SignedGroupStatement)}
    {previous : Option Held} :
    P.rosterRules state roster statement copies previous = .ok () ↔
      RosterHolds P state roster statement copies previous := by
  unfold Primitives.rosterRules
  split
  · next otherKind =>
      simp only [reduceCtorEq, false_iff]
      intro holds
      rw [Option.any_eq_true] at otherKind
      obtain ⟨before, given, differs⟩ := otherKind
      exact absurd (holds.kind before given) (by simpa using differs)
  · next sameKind =>
      have kind : ∀ before ∈ previous, roster.kind = before.roster.kind := by
        intro before given
        by_contra differs
        apply sameKind
        rw [Option.any_eq_true]
        exact ⟨before, given, by simpa using differs⟩
      split
      · next missing =>
          simp only [reduceCtorEq, false_iff]
          intro holds
          exact absurd holds.reached (by omega)
      · next reached =>
          rw [throwing_eq_ok]
          have signedIff :
              (copies.elim (.ok ()) fun copies =>
                  P.checkSignatures state roster statement copies
                    ((previous.map Held.roster).getD roster)) = .ok () ↔
                ∀ served ∈ copies, ∃ copy ∈ served,
                  (∃ key ∈ state.keys[roster.groupKeyVersion - 1]?,
                    P.verifyGroup statement copy.signature key = true) ∧
                  P.signedByMember ((previous.map Held.roster).getD roster)
                    roster.signerUserId copy state.mlDsaKeys = true := by
            cases copies with
            | none =>
              simp
            | some copies =>
              simp [P.checkSignatures_eq_ok]
          have currentIff :
              ¬ ((state.verifiedAt roster.groupKeyVersion).any (fun out =>
                  out.lastRosterVersion < roster.rosterVersion) = true) ↔
                ∀ out ∈ state.verifiedAt roster.groupKeyVersion,
                  roster.rosterVersion ≤ out.lastRosterVersion := by
            simp [Option.any_eq_true]
          have followsIff :
              (previous.elim (.ok ()) fun previous => do
                  refuseIf
                    (previous.droppedHolder = true ∧
                      (state.verifiedAt
                        previous.roster.groupKeyVersion).map
                          Verified.lastRosterVersion ≠
                        some previous.roster.rosterVersion)
                    HOLDER_LEFT
                  checkEntries previous.roster roster) = .ok () ↔
                (∀ before ∈ previous, before.droppedHolder = true →
                  (state.verifiedAt before.roster.groupKeyVersion).map
                      Verified.lastRosterVersion =
                    some before.roster.rosterVersion) ∧
                ∀ before ∈ previous,
                  checkEntries before.roster roster = .ok () := by
            cases previous with
            | none =>
              simp
            | some previous =>
              simp [bind_eq_ok]
          simp only [Primitives.reachedRules, bind_eq_ok, exists_unit,
            refuseIf_eq_ok, currentIff, signedIff, followsIff,
            checkAreas_eq_ok, Bool.not_eq_false, any_eq_true]
          constructor
          · rintro ⟨current, holder, stays, keeps, signed,
              ⟨due, entries⟩, areas⟩
            exact {
              kind := kind, reached := by omega, current := current
              holder := holder, stays := stays, keeps := keeps
              signed := signed, due := due, entries := entries
              areas := areas }
          · intro holds
            exact ⟨holds.current, holds.holder, holds.stays, holds.keeps,
              holds.signed, ⟨holds.due, holds.entries⟩, holds.areas⟩

/-- A statement is admissible exactly when the succession rules hold. -/
theorem Primitives.isAdmissible_iff
    {oldVersion : Nat}
    {served : Served GroupKeySuccession} :
    P.isAdmissible state oldVersion served = true ↔
      SuccessionHolds P state served oldVersion := by
  have accepted :
      P.isAdmissible state oldVersion served = true ↔
        P.admissibleSuccession state served oldVersion =
          .ok served.value := by
    unfold Primitives.isAdmissible
    split
    · next succession found =>
        simp only [found, Except.ok.injEq, true_iff]
        unfold Primitives.admissibleSuccession at found
        simp only [bind_eq_ok, exists_unit] at found
        obtain ⟨_, _, found⟩ := found
        split at found
        · simp at found
        · simp only [bind_eq_ok, exists_unit, Except.ok.injEq] at found
          exact found.2.2.2.2.2.symm
    · next reason found =>
        simp [found]
  rw [accepted]
  unfold Primitives.admissibleSuccession
  simp only [bind_eq_ok, exists_unit, refuseIf_eq_ok, not_or, not_not,
    Bool.not_eq_false, Option.any_eq_true, sameGroupKey_iff, any_eq_true]
  constructor
  · rintro ⟨⟨groupId, old, replaces, rfl⟩, new, tied⟩
    split at tied
    · simp at tied
    · next last found =>
        simp only [bind_eq_ok, exists_unit, refuseIf_eq_ok, not_not,
          Bool.not_eq_false, any_eq_true, mem_filter,
          decide_eq_true_eq, not_exists, not_and, not_lt] at tied
        obtain ⟨digest, ordered, holder, _, ⟨copy, ⟨member, grouped⟩,
          signed⟩, _⟩ := tied
        exact {
          groupId := groupId, replaces := replaces
          new := by
            intro member
            exact new ⟨_, member, rfl⟩
          tied := ⟨last, found, digest, holder, copy, member, grouped,
            signed⟩
          ordered := by
            intro into given
            exact ordered into given }
  · intro holds
    obtain ⟨last, found, digest, holder, copy, member, grouped, signed⟩ :=
      holds.tied
    refine ⟨⟨holds.groupId, _, holds.replaces, rfl⟩, ?_, ?_⟩
    · rintro ⟨key, keyMember, rfl⟩
      exact holds.new keyMember
    · rw [found]
      simp only [bind_eq_ok, exists_unit, refuseIf_eq_ok, not_not,
        Bool.not_eq_false, any_eq_true, mem_filter,
        decide_eq_true_eq, not_exists, not_and, not_lt]
      exact ⟨digest, holds.ordered, holder,
        ne_nil_of_mem (mem_filter.mpr ⟨member, grouped⟩),
        ⟨copy, ⟨member, grouped⟩, signed⟩, trivial⟩

/-- Whether a succession's new key is the one a mark names. -/
def Primitives.named (P : Primitives) (digest : String)
    (served : Served GroupKeySuccession) : Bool :=
  match P.groupKeyDigest served.value.newKey with
  | .ok found => found = digest
  | .error _ => false

/-- Whether a served succession may be taken now: it holds, and is marked. -/
def Primitives.eligible (P : Primitives) (state : State)
    (served : Served GroupKeySuccession) : Bool :=
  P.isAdmissible state state.keys.length served &&
    (state.keyMarks.get? (state.keys.length + 1)).all fun mark =>
      P.named mark.digest served

/-- Nothing may be taken from the current key. -/
def Primitives.Settled (P : Primitives) (state : State) : Prop :=
  ∀ served ∈ state.current, P.eligible state served = false

/-- Reading the choices keeps the order, so a digest finds one statement. -/
theorem Primitives.readEach_choice
    {served : List (Served GroupKeySuccession)}
    {choices : List (Served GroupKeySuccession × String)}
    (read : readEach P.choice served = .ok choices)
    (digest : String) :
    choices.map Prod.fst = served ∧
      (choices.find? fun choice => choice.2 = digest).map Prod.fst =
        served.find? (P.named digest) := by
  induction served generalizing choices with
  | nil =>
    simp only [readEach, Except.ok.injEq] at read
    subst read
    exact ⟨rfl, rfl⟩
  | cons head rest inductionHypothesis =>
    simp only [readEach, bind_eq_ok, Primitives.choice,
      Except.ok.injEq] at read
    obtain ⟨_, ⟨found, headDigest, rfl⟩, others, restRead, rfl⟩ := read
    obtain ⟨restSame, restFound⟩ := inductionHypothesis restRead
    refine ⟨by simp [restSame], ?_⟩
    by_cases same : found = digest
    · simp [Primitives.named, headDigest, same]
    · simpa [Primitives.named, headDigest, same] using restFound

theorem Primitives.exists_readEach_choice
    {served : List (Served GroupKeySuccession)}
    (keys : ∀ candidate ∈ served,
      ∃ digest, P.groupKeyDigest candidate.value.newKey = .ok digest) :
    ∃ choices, readEach P.choice served = .ok choices := by
  rw [exists_readEach]
  intro candidate member
  obtain ⟨digest, isDigest⟩ := keys candidate member
  exact ⟨(candidate, digest), by simp [Primitives.choice, isDigest]⟩

/-- The statement chosen is the eligible one, single unless marked. -/
theorem Primitives.nextSuccession_eq_ok
    {state after : State}
    {next : Option (Served GroupKeySuccession)}
    (chosen : P.nextSuccession state = .ok (after, next)) :
    (∃ refused waiting, after = { state with refused, waiting }) ∧
      next = state.current.find? (P.eligible state) ∧
      (state.keyMarks.get? (state.keys.length + 1) = none →
        (state.current.filter
          (P.isAdmissible state state.keys.length)).length ≤ 1) := by
  simp only [Primitives.nextSuccession, bind_eq_ok] at chosen
  obtain ⟨valid, read, chosen⟩ := chosen
  have eligibleFind :
      state.current.find? (P.eligible state) =
        (state.current.filter
          (P.isAdmissible state state.keys.length)).find? fun served =>
            (state.keyMarks.get? (state.keys.length + 1)).all fun mark =>
              P.named mark.digest served := by
    rw [find?_filter]
    congr 1
    funext served
    rw [Bool.eq_iff_iff]
    simp [Primitives.eligible]
  cases marked : state.keyMarks.get? (state.keys.length + 1) with
  | none =>
    obtain ⟨same, _⟩ := P.readEach_choice read ""
    simp only [marked] at chosen
    rw [eligibleFind, ← same]
    simp only [marked, Option.all_none]
    rcases valid with _ | ⟨_, _ | _⟩
    · simp only [Except.ok.injEq, Prod.mk.injEq] at chosen
      exact ⟨⟨_, _, chosen.1.symm⟩, by simp [← chosen.2], by simp⟩
    · simp only [Except.ok.injEq, Prod.mk.injEq] at chosen
      exact ⟨⟨_, _, chosen.1.symm⟩, by simp [← chosen.2], by simp⟩
    · simp at chosen
  | some mark =>
    obtain ⟨_, found⟩ := P.readEach_choice read mark.digest
    simp only [marked] at chosen
    rw [eligibleFind]
    simp only [marked, Option.all_some, reduceCtorEq, false_implies,
      and_true, ← found]
    split at chosen
    · next choice foundChoice =>
        simp only [Except.ok.injEq, Prod.mk.injEq] at chosen
        refine ⟨⟨_, _, chosen.1.symm⟩, ?_⟩
        rw [foundChoice, ← chosen.2]
        rfl
    · next noChoice =>
        rw [noChoice]
        split at chosen
        all_goals
          simp only [Except.ok.injEq, Prod.mk.injEq] at chosen
          exact ⟨⟨_, _, chosen.1.symm⟩, chosen.2.symm⟩

/-- A choice is made wherever no two statements are admissible. -/
theorem Primitives.exists_nextSuccession
    (keys : ∀ served ∈ state.current,
      ∃ digest, P.groupKeyDigest served.value.newKey = .ok digest)
    (single : state.keyMarks.get? (state.keys.length + 1) = none →
      (state.current.filter
        (P.isAdmissible state state.keys.length)).length ≤ 1) :
    ∃ after next, P.nextSuccession state = .ok (after, next) := by
  obtain ⟨valid, read⟩ := @Primitives.exists_readEach_choice P
    (state.current.filter (P.isAdmissible state state.keys.length))
    fun candidate member => keys candidate (mem_filter.mp member).1
  obtain ⟨same, _⟩ := P.readEach_choice read ""
  simp only [Primitives.nextSuccession, read, ok_bind]
  cases marked : state.keyMarks.get? (state.keys.length + 1) with
  | none =>
    have few := single marked
    rw [← same, length_map] at few
    rcases valid with _ | ⟨_, _ | _⟩
    · exact ⟨_, _, rfl⟩
    · exact ⟨_, _, rfl⟩
    · simp at few
  | some mark =>
    simp only
    split
    · exact ⟨_, _, rfl⟩
    · split
      all_goals exact ⟨_, _, rfl⟩

/-- One step takes the eligible statement or finds there is none. -/
theorem Primitives.establishNext_eq_ok
    {state after : State}
    {taken : Bool}
    (established : P.establishNext state = .ok (after, taken)) :
    ∃ refused waiting,
      (taken = false ∧ after = { state with refused, waiting } ∧
        P.Settled state) ∨
      (taken = true ∧ ∃ served,
        after = State.take { state with refused, waiting } served ∧
        state.current.find? (P.eligible state) = some served ∧
        (state.keyMarks.get? (state.keys.length + 1) = none →
          (state.current.filter
            (P.isAdmissible state state.keys.length)).length ≤ 1)) := by
  simp only [Primitives.establishNext, bind_eq_ok] at established
  obtain ⟨⟨middle, next⟩, chosen, established⟩ := established
  obtain ⟨⟨refused, waiting, rfl⟩, rfl, single⟩ :=
    P.nextSuccession_eq_ok chosen
  refine ⟨refused, waiting, ?_⟩
  dsimp only at established
  split at established
  · next none =>
      simp only [Except.ok.injEq, Prod.mk.injEq] at established
      left
      refine ⟨established.2.symm, established.1.symm, ?_⟩
      simpa [Primitives.Settled] using none
  · next served some =>
      simp only [Except.ok.injEq, Prod.mk.injEq] at established
      right
      exact ⟨established.2.symm, served, established.1.symm, some, single⟩

end

end HushOS
