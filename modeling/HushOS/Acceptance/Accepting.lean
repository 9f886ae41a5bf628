import HushOS.Acceptance.Linking

namespace HushOS

open Toolkit List OrderedMap

/-!
# What acceptance accepts

`accept_eq_ok` takes an accepted input apart: the person's own parts hold
(`OwnHolds`), what is served is grouped and linked (`PreparedHolds`), the path
passes, and the marks are met.  The rest of the development reads these and
never unfolds acceptance.
-/

section

variable {P : Primitives}

/-- The person's own parts of an input, each checked. -/
structure OwnHolds (P : Primitives) (input : Accepting) (own : Own) :
    Prop where
  groupId : isUuid input.groupId = true
  pins : ∀ pin ∈ input.pins, ∃ read, checkGroupPin input.groupId pin = .ok read
  cached : P.cachedOf input = .ok own.cached
  joinMark : own.joinMark = input.joinMark
  joinShaped : ∀ mark ∈ input.joinMark, checkJoinMark mark = .ok mark
  pairMarks : own.pairMarks = input.pairMarks
  pairShaped : ∀ mark ∈ input.pairMarks, checkPairMark mark = .ok mark
  joinAnchor : input.anchor = some .join → input.joinMark ≠ none
  joinOnly : input.joinMark ≠ none →
    input.anchor = some .join ∨ input.anchor = none
  reader : input.pairMarks ≠ [] → input.me.isSome = true

variable {input : Accepting} {prepared : Prepared}

/-- The caller's own state is taken exactly when it agrees with the cache. -/
theorem Primitives.ownOf_eq_ok
    {own : Own} :
    P.ownOf input = .ok own ↔ OwnHolds P input own := by
  have joinIff (joinMark : Option JoinMark) :
      (input.joinMark.elim (.ok none) fun mark =>
          (checkJoinMark mark).map some) = .ok joinMark ↔
        joinMark = input.joinMark ∧
          ∀ mark ∈ input.joinMark, checkJoinMark mark = .ok mark := by
    cases given : input.joinMark with
    | none =>
      simp [eq_comm]
    | some mark =>
      simp only [Option.elim_some, Option.mem_def, Option.some.injEq,
        forall_eq']
      cases passed : checkJoinMark mark with
      | error reason =>
        simp [Except.map]
      | ok read =>
        have same : read = mark := (checkJoinMark_eq_ok.mp passed).1
        subst same
        simp [Except.map, eq_comm]
  have pairIff (pairMarks : List PairMark) :
      readEach checkPairMark input.pairMarks = .ok pairMarks ↔
        pairMarks = input.pairMarks ∧
          ∀ mark ∈ input.pairMarks, checkPairMark mark = .ok mark := by
    have reads :
        readEach checkPairMark input.pairMarks = .ok pairMarks ↔
          input.pairMarks = pairMarks.map id ∧
            ∀ mark ∈ pairMarks, checkPairMark mark = .ok mark := by
      refine readEach_eq_ok_map ?_
      intro mark read
      constructor
      · intro passed
        have same : read = mark := (checkPairMark_eq_ok.mp passed).1
        subst same
        exact ⟨rfl, passed⟩
      · rintro ⟨rfl, passed⟩
        exact passed
    rw [reads, map_id, eq_comm]
    constructor
    · rintro ⟨same, shaped⟩
      exact ⟨same, same ▸ shaped⟩
    · rintro ⟨same, shaped⟩
      exact ⟨same, same ▸ shaped⟩
  obtain ⟨cached, joinMark, pairMarks⟩ := own
  simp only [Primitives.ownOf, bind_eq_ok, uuid_eq_ok, Json.Plain.text.injEq,
    exists_unit, refuseIf_eq_ok, joinIff, pairIff, Except.ok.injEq,
    Own.mk.injEq]
  constructor
  · rintro ⟨_, ⟨rfl, groupId⟩, _, pins, _, isCached, _, ⟨rfl, joinShaped⟩,
      _, ⟨rfl, pairShaped⟩, anchor, reader, rfl, rfl, rfl⟩
    simp only [not_or, not_and, not_not] at anchor
    exact {
      groupId := groupId, pins := exists_readEach.mp ⟨_, pins⟩
      cached := isCached
      joinMark := rfl, joinShaped := joinShaped
      pairMarks := rfl, pairShaped := pairShaped
      joinAnchor := anchor.1
      joinOnly := by
        intro given
        by_cases join : input.anchor = some .join
        · exact .inl join
        · exact .inr (anchor.2 given join)
      reader := by
        intro given
        cases me : input.me with
        | none =>
          exact absurd ⟨given, by simp [me]⟩ reader
        | some _ =>
          rfl }
  · intro holds
    obtain ⟨read, isRead⟩ := exists_readEach.mpr holds.pins
    refine ⟨_, ⟨rfl, holds.groupId⟩, read, isRead, _, holds.cached, _,
      ⟨rfl, holds.joinShaped⟩, _, ⟨rfl, holds.pairShaped⟩, ?_, ?_, rfl,
      holds.joinMark.symm, holds.pairMarks.symm⟩
    · rintro (⟨join, missing⟩ | ⟨given, notJoin, notNone⟩)
      · exact holds.joinAnchor join missing
      · exact (holds.joinOnly given).elim notJoin notNone
    · rintro ⟨given, missing⟩
      have reader := holds.reader given
      cases me : input.me <;> simp [me] at reader missing

/-- What the pass needs, each part from the input. -/
structure PreparedHolds
    (P : Primitives)
    (input : Accepting)
    (prepared : Prepared) : Prop where
  own : OwnHolds P input prepared.own
  marks : P.marksOf input.pins prepared.own.cached = .ok prepared.marks
  agreed : agree prepared.marks = .ok ()
  rosters : P.byDigest input.rosters parseRoster = .ok prepared.rosters
  sameGroup : ∀ served ∈ prepared.rosters.values,
    served.value.groupId = input.groupId
  successions :
    P.byDigest input.successions parseGroupSuccession =
      .ok prepared.successions
  firstKeys : P.checkFirstKeys input prepared.marks = .ok ()
  line : LineHolds prepared.own.cached prepared.rosters prepared.line

/-- Preparing a call succeeds exactly when every served input checks. -/
theorem Primitives.prepare_eq_ok
    {prepared : Prepared} :
    P.prepare input = .ok prepared ↔ PreparedHolds P input prepared := by
  obtain ⟨own, marks, rosters, successions, line⟩ := prepared
  simp only [Primitives.prepare, bind_eq_ok, exists_unit, throwing_eq_ok,
    forEach_eq_ok, refuseIf_eq_ok, not_not, P.ownOf_eq_ok, lineOf_eq_ok,
    Except.ok.injEq, Prepared.mk.injEq]
  constructor
  · rintro ⟨_, isOwn, _, isMarks, agreed, _, isRosters, sameGroup, _,
      isSuccessions, firstKeys, _, isLine, rfl, rfl, rfl, rfl, rfl⟩
    exact ⟨isOwn, isMarks, agreed, isRosters, sameGroup, isSuccessions,
      firstKeys, isLine⟩
  · intro holds
    exact ⟨_, holds.own, _, holds.marks, holds.agreed, _, holds.rosters,
      holds.sameGroup, _, holds.successions, holds.firstKeys, _, holds.line,
      rfl, rfl, rfl, rfl, rfl⟩

/-- Acceptance is preparing, the pass over the path and the floor marks. -/
theorem Primitives.accept_eq_ok
    {chain : ChainBody}
    {state : State} :
    P.accept input = .ok (chain, state) ↔
      ∃ prepared, PreparedHolds P input prepared ∧
        P.pass (startState input prepared) prepared.line.path = .ok state ∧
        P.checkMarks input prepared state = .ok () ∧
        ∃ latest, state.held.getLast? = some latest ∧
          ∃ digest,
            P.groupKeyDigest (state.keys.getLastD ⟨"", ""⟩) = .ok digest ∧
            chain =
              P.bodyOf input prepared.rosters prepared.line state latest
                digest := by
  simp only [Primitives.accept, bind_eq_ok, exists_unit, P.prepare_eq_ok]
  constructor
  · rintro ⟨prepared, isPrepared, passed, isPassed, marked, accepted⟩
    split at accepted
    · simp at accepted
    · next latest isLatest =>
        simp only [bind_eq_ok, throwing_eq_ok, Except.ok.injEq,
          Prod.mk.injEq] at accepted
        obtain ⟨digest, isDigest, rfl, rfl⟩ := accepted
        exact ⟨prepared, isPrepared, isPassed, marked, latest, isLatest,
          digest, isDigest, rfl⟩
  · rintro ⟨prepared, isPrepared, isPassed, marked, latest, isLatest, digest,
      isDigest, rfl⟩
    refine ⟨prepared, isPrepared, state, isPassed, marked, ?_⟩
    rw [isLatest]
    simp only [isDigest, throwing, ok_bind]

theorem Primitives.acceptRosters_eq_accepted
    {input : AcceptInput}
    {chain : ChainBody} :
    P.acceptRosters input = .ok (.accepted chain) ↔
      ∃ state, P.accept input.accepting = .ok (chain, state) := by
  unfold Primitives.acceptRosters
  cases P.accept input.accepting with
  | error thrown =>
    cases thrown <;> simp [answer, Except.map]
  | ok result =>
    obtain ⟨body, state⟩ := result
    simp [answer, Except.map]

/-- The rosters on the path are served ones. -/
theorem LineHolds.mem_values
    {cached : Option Cached}
    {rosters : OrderedMap String (Served Roster)}
    {line : Line}
    (holds : LineHolds cached rosters line)
    {served : Served Roster}
    (member : served ∈ line.path) :
    served ∈ rosters.values := by
  obtain ⟨index, isServed⟩ := mem_iff_getElem?.mp member
  have nonempty := ne_nil_of_mem member
  by_cases last : index + 1 = line.path.length
  · have isLast : line.path.getLast? = some served := by
      rw [getLast?_eq_getElem?, ← last]
      exact isServed
    rw [holds.top nonempty] at isLast
    exact (mem_filter.mp (mem_of_head? isLast)).1
  · have inside := (List.getElem?_eq_some_iff.mp isServed).1
    obtain ⟨after, isAfter⟩ : ∃ after, line.path[index + 1]? = some after :=
      ⟨_, getElem?_eq_getElem (by omega)⟩
    exact OrderedMap.mem_values.mpr
      ⟨_, holds.chained.named isServed isAfter⟩

theorem PreparedHolds.linked
    (holds : PreparedHolds P input prepared) :
    Linked P prepared.line.bottom prepared.line.path := by
  have grouped := P.grouped_of_byDigest holds.rosters
  exact {
    versions := holds.line.chained.versions
    parsed := by
      intro served member
      obtain ⟨digest, found⟩ :=
        OrderedMap.mem_values.mp (holds.line.mem_values member)
      exact grouped.parsed found
    digests := by
      intro served member
      obtain ⟨digest, found⟩ :=
        OrderedMap.mem_values.mp (holds.line.mem_values member)
      have same := grouped.digest found
      rw [same.1, same.2] }

/-- What no step of a pass changes. -/
structure Framed (state after : State) : Prop where
  groupId : after.groupId = state.groupId
  mlDsaKeys : after.mlDsaKeys = state.mlDsaKeys
  candidates : after.candidates = state.candidates
  keyMarks : after.keyMarks = state.keyMarks

theorem Primitives.Passes.framed
    {state after : State}
    {path : List (Served Roster)}
    (passes : P.Passes state path after) :
    Framed state after := by
  induction passes with
  | settled _ =>
    exact ⟨rfl, rfl, rfl, rfl⟩
  | note _ _ _ inductionHypothesis =>
    exact ⟨inductionHypothesis.groupId, inductionHypothesis.mlDsaKeys,
      inductionHypothesis.candidates, inductionHypothesis.keyMarks⟩
  | take _ _ _ _ inductionHypothesis =>
    exact ⟨inductionHypothesis.groupId, inductionHypothesis.mlDsaKeys,
      inductionHypothesis.candidates, inductionHypothesis.keyMarks⟩
  | hold _ _ _ _ inductionHypothesis =>
    exact ⟨inductionHypothesis.groupId, inductionHypothesis.mlDsaKeys,
      inductionHypothesis.candidates, inductionHypothesis.keyMarks⟩

/-- A pass takes its keys from candidate statements, one a step. -/
theorem Primitives.Passes.taken
    {state after : State}
    {path : List (Served Roster)}
    (passes : P.Passes state path after) :
    ∃ taken : List (Served GroupKeySuccession),
      (∀ served ∈ taken, ∃ version,
        served ∈ state.candidates.listAt version) ∧
      after.keys =
        state.keys ++ taken.map (fun served => served.value.newKey) ∧
      after.verified =
        state.verified ++ taken.map fun served =>
          { lastRosterVersion := served.value.lastRosterVersion
            digest := served.digest
            signerUserId := served.value.signerUserId } := by
  induction passes with
  | settled _ =>
    exact ⟨[], by simp⟩
  | note _ _ _ inductionHypothesis =>
    exact inductionHypothesis
  | @take state after path served chosen _ _ inductionHypothesis =>
    obtain ⟨taken, given, keys, verified⟩ := inductionHypothesis
    refine ⟨served :: taken, ?_, ?_, ?_⟩
    · intro other member
      rcases mem_cons.mp member with rfl | later
      · exact ⟨_, mem_candidates_of_current
          (mem_of_find?_eq_some chosen)⟩
      · exact given other later
    · rw [keys]
      simp [State.take]
    · rw [verified]
      simp [State.take]
  | hold _ _ _ _ inductionHypothesis =>
    exact inductionHypothesis

theorem listAt_candidates
    (values : List (Served GroupKeySuccession))
    (version : Nat) :
    (values.foldl addCandidate .empty).listAt version =
      values.filter fun served => served.value.oldVersion = version := by
  have listed := listAt_foldl_push
    (fun served : Served GroupKeySuccession => served.value.oldVersion) id
    values .empty version
  rw [map_id] at listed
  exact listed

theorem exists_groupKeyDigest_iff
    {key : GroupPublicKey} :
    (∃ digest, P.groupKeyDigest key = .ok digest) ↔ key.Valid := by
  simp only [P.groupKeyDigest_eq_ok]
  constructor
  · rintro ⟨_, _, _, ed25519, mlDsa, _⟩
    exact ⟨Primitives.decode_isOk.mp ⟨_, ed25519⟩,
      Primitives.decode_isOk.mp ⟨_, mlDsa⟩⟩
  · intro valid
    obtain ⟨_, ed25519⟩ := Primitives.decode_isOk.mpr valid.ed25519PublicKey
    obtain ⟨_, mlDsa⟩ := Primitives.decode_isOk.mpr valid.mlDsaPublicKey
    exact ⟨_, _, _, ed25519, mlDsa, rfl⟩

/-- A candidate is a served statement, parsed, under its old version. -/
theorem PreparedHolds.candidate
    (holds : PreparedHolds P input prepared)
    {version : Nat}
    {served : Served GroupKeySuccession}
    (member :
      served ∈ (startState input prepared).candidates.listAt version) :
    served ∈ prepared.successions.values ∧
      served.value.oldVersion = version ∧
      parseGroupSuccession served.statement = .ok served.value ∧
      served.digest = P.digest served.statement := by
  have isCandidate :
      served ∈ (prepared.successions.values.foldl addCandidate
        .empty).listAt version := member
  rw [listAt_candidates, mem_filter] at isCandidate
  obtain ⟨inValues, isVersion⟩ := isCandidate
  have grouped := P.grouped_of_byDigest holds.successions
  obtain ⟨digest, found⟩ := mem_values.mp inValues
  have same := grouped.digest found
  exact ⟨inValues, by simpa using isVersion, grouped.parsed found,
    by rw [same.1, same.2]⟩

theorem PreparedHolds.readable
    (holds : PreparedHolds P input prepared) :
    P.Readable (startState input prepared) := by
  intro version served member
  obtain ⟨_, _, parsed, _⟩ := holds.candidate member
  have valid := (groupSuccessionStatement_eq_ok.mp
    (parseGroupSuccession_eq_ok.mp parsed)).1
  exact exists_groupKeyDigest_iff.mpr
    ⟨valid.newEd25519PublicKey, valid.newMlDsaPublicKey⟩

end

end HushOS
