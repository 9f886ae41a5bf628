import HushOS.Acceptance.Accepting
import HushOS.Acceptance.Keeping

namespace HushOS

open Toolkit List

/-!
# Histories

A chain is accepted from version 1, or continued any number of times from the
cache an earlier acceptance returned.  `History` lists every roster on such a
chain, version 1 first, and `Standing` is what holds of it: the lines of keys
and of areas run along the whole history, and what the chain keeps passes the
check of its cache, whatever was cut where.
-/

/--
A chain accepted from version 1, or continued from accepted ones, with every
roster on it.  A continuation holds the last roster it continues, so the
rosters before that one are the earlier history's.
-/
inductive Primitives.History (P : Primitives) :
    ChainBody → List Held → Prop where
  | first
      {input : AcceptInput}
      {chain : ChainBody}
      {state : State}
      (fresh : input.cache = none)
      (accepted : P.accept input.accepting = .ok (chain, state)) :
      History P chain state.held
  | next
      {earlier chain : ChainBody}
      {history : List Held}
      {input : AcceptInput}
      {state : State}
      (before : History P earlier history)
      (cached : input.cache = some earlier.cache)
      (accepted : P.accept input.accepting = .ok (chain, state)) :
      History P chain
        (history.take (chain.rosterDigests.length - state.held.length) ++
          state.held)

/-- The parts of an accepted chain its cache keeps. -/
def ChainBody.kept (chain : ChainBody) : Cached where
  rosterDigests := chain.rosterDigests
  statement := chain.statement
  roster := chain.roster
  droppedHolder := chain.droppedHolder
  groupKeys := chain.groupKeys
  successions := chain.cache.successions
  creatorUserId := chain.creatorUserId
  keyHistory := chain.keyHistory
  areaKeys := chain.areaKeys
  areaRoots := chain.areaRoots
  retiredAreas := chain.retiredAreas
  ownEntryWrongAt := chain.ownEntryWrongAt

/-- The last roster of a chain, as the chain holds it. -/
def ChainBody.latest (chain : ChainBody) : Held where
  roster := chain.roster
  statement := chain.statement
  digest := chain.rosterDigest
  droppedHolder := chain.droppedHolder

/-- The state an accepted chain is continued from. -/
def ChainBody.standing (chain : ChainBody) : State :=
  stateOf chain.groupId .empty (some chain.kept)

/-- The rosters of a history are statements of one group, linked by digest. -/
structure Recorded
    (P : Primitives)
    (groupId : String)
    (history : List Held) : Prop where
  parsed : ∀ held ∈ history, parseRoster held.statement = .ok held.roster
  hashed : ∀ held ∈ history, held.digest = P.digest held.statement
  ofGroup : ∀ held ∈ history, held.roster.groupId = groupId
  linked : ∀ {index : Nat} {before after : Held},
    history[index]? = some before → history[index + 1]? = some after →
      after.roster.previousRosterDigest = before.digest

/-- What holds of an accepted chain and every roster on it. -/
structure Standing (P : Primitives) (chain : ChainBody) (history : List Held) :
    Prop where
  cache : chain.cache = chain.kept.toCache chain.groupId
  holds : chain.kept.Holds P chain.groupId
  keyLine : KeyLine P history chain.standing
  areaLine : AreaLine history chain.standing
  recorded : Recorded P chain.groupId history
  digests : history.map Held.digest = chain.rosterDigests
  latest : history.getLast? = some chain.latest
  creator :
    history.head?.map (fun held => held.roster.signerUserId) =
      some chain.creatorUserId
  keyHistory : chain.keyHistory =
    (history.flatMap fun held => held.roster.members).foldl keepKeySet .empty
  kind : chain.kind = chain.roster.kind
  keyVersion : chain.groupKeyVersion = chain.groupKeys.length
  key : chain.groupKey = chain.groupKeys.getLastD ⟨"", ""⟩
  keyDigest : P.groupKeyDigest chain.groupKey = .ok chain.groupKeyDigest
  due : chain.successionDue =
    (chain.droppedHolder &&
      (chain.standing.verifiedAt chain.roster.groupKeyVersion).map
          Verified.lastRosterVersion ≠
        some chain.roster.rosterVersion)

section

variable {P : Primitives}

theorem Recorded.nil (groupId : String) : Recorded P groupId [] where
  parsed := by simp
  hashed := by simp
  ofGroup := by simp
  linked := by simp

variable {groupId : String} {history : List Held} {chain : ChainBody}

theorem Recorded.valid
    (recorded : Recorded P groupId history)
    {held : Held}
    (member : held ∈ history) :
    held.roster.Valid :=
  (rosterStatement_eq_ok.mp
    (parseRoster_eq_ok.mp (recorded.parsed held member))).1

theorem Recorded.validRow
    (recorded : Recorded P groupId history)
    {row : RosterArea}
    (member : row ∈ rowsOf history) :
    ∃ format, RosterArea.Valid format row := by
  obtain ⟨held, inHistory, inRoster⟩ := mem_flatMap.mp member
  exact ⟨_, (recorded.valid inHistory).areas row inRoster⟩

theorem Recorded.validEntry
    (recorded : Recorded P groupId history)
    {entry : RosterMember}
    (member : entry ∈ history.flatMap fun held => held.roster.members) :
    ∃ kind rosterVersion, RosterMember.Valid kind rosterVersion entry := by
  obtain ⟨held, inHistory, inRoster⟩ := mem_flatMap.mp member
  exact ⟨_, _, (recorded.valid inHistory).members entry inRoster⟩

/-- A linked path that names its predecessors extends the record. -/
theorem Recorded.append
    {groupId : String}
    {history : List Held}
    {path : List (Served Roster)}
    (recorded : Recorded P groupId history)
    (linked : Linked P history.length path)
    (ofGroup : ∀ served ∈ path, served.value.groupId = groupId)
    (named : ∀ {index : Nat} {before after : Served Roster},
      path[index]? = some before → path[index + 1]? = some after →
        after.value.previousRosterDigest = before.digest)
    (continues : ∀ last ∈ history.getLast?, ∀ next ∈ path.head?,
      next.value.previousRosterDigest = last.digest)
    (previous : Option Held) :
    Recorded P groupId (history ++ holdAll previous path) := by
  induction path generalizing history previous with
  | nil =>
    simpa [holdAll] using recorded
  | cons served rest inductionHypothesis =>
    have grown :
        Recorded P groupId (history ++ [heldAfter previous served]) := {
      parsed := by
        intro held member
        rcases mem_append.mp member with earlier | new
        · exact recorded.parsed held earlier
        · rw [mem_singleton] at new
          subst new
          exact linked.parsed served (by simp)
      hashed := by
        intro held member
        rcases mem_append.mp member with earlier | new
        · exact recorded.hashed held earlier
        · rw [mem_singleton] at new
          subst new
          exact linked.digests served (by simp)
      ofGroup := by
        intro held member
        rcases mem_append.mp member with earlier | new
        · exact recorded.ofGroup held earlier
        · rw [mem_singleton] at new
          subst new
          exact ofGroup served (by simp)
      linked := by
        intro index before after isBefore isAfter
        have inside : index < history.length := by
          have bound := (List.getElem?_eq_some_iff.mp isAfter).1
          rw [length_append, length_singleton] at bound
          omega
        rw [getElem?_append_left inside] at isBefore
        by_cases isNew : index + 1 = history.length
        · have same : after = heldAfter previous served := by
            rw [isNew] at isAfter
            simpa using isAfter.symm
          subst same
          have isLast : history.getLast? = some before := by
            rw [getLast?_eq_getElem?, ← isNew]
            simpa using isBefore
          exact continues before isLast served rfl
        · rw [getElem?_append_left (by omega)] at isAfter
          exact recorded.linked isBefore isAfter }
    have rested := inductionHypothesis grown
      (by simpa using linked.tail)
      (fun other member => ofGroup other (by simp [member]))
      (by
        intro index before after isBefore isAfter
        rw [← getElem?_cons_succ] at isBefore isAfter
        exact named isBefore isAfter)
      (by
        intro last isLast next isNext
        simp only [getLast?_concat, Option.mem_def,
          Option.some.injEq] at isLast
        subst isLast
        have isFirst :
            (served :: rest)[0]? = some served := rfl
        refine named isFirst ?_
        rw [← isNext]
        simp [head?_eq_getElem?])
      (some (heldAfter previous served))
    simpa [holdAll] using rested

/-- What an acceptance starts from, the history it continues being known. -/
structure Continues
    (P : Primitives)
    (input : Accepting)
    (prepared : Prepared)
    (history : List Held) : Prop where
  keyLine : KeyLine P history (startState input prepared)
  areaLine : AreaLine history (startState input prepared)
  recorded : Recorded P input.groupId history
  bottom : prepared.line.bottom = history.length
  digests :
    (prepared.line.extending.map Cached.rosterDigests).getD [] =
      history.map Held.digest
  keys : ∀ key ∈ (startState input prepared).keys.drop 1, key.Valid
  successions : ∀ verified ∈ (startState input prepared).verified,
    verified.Valid
  creator :
    prepared.line.extending.map Cached.creatorUserId =
      history.head?.map fun held => held.roster.signerUserId
  keyHistory :
    (prepared.line.extending.map Cached.keyHistory).getD .empty =
      (history.flatMap fun held => held.roster.members).foldl keepKeySet
        .empty
  wrong :
    Ascends ((prepared.line.extending.map Cached.ownEntryWrongAt).getD [])
      history.length

/-- A call without a cache continues the empty history. -/
theorem Continues.first
    {input : Accepting}
    {prepared : Prepared}
    (holds : PreparedHolds P input prepared)
    (nothing : prepared.line.extending = none) :
    Continues P input prepared [] where
  keyLine := by
    have keys : (startState input prepared).keys = [input.firstKeys] := by
      simp [startState, startOf, nothing]
    refine KeyLine.start keys ?_ ?_
    · simp [startState, startOf, stateOf, nothing]
    · simp [startState, startOf, stateOf, nothing]
  areaLine := by
    refine AreaLine.start ?_
    simp [startState, startOf, stateOf, ledgerOf, nothing]
  recorded := .nil _
  bottom := by
    rw [holds.line.bottom, nothing]
    rfl
  digests := by simp [nothing]
  keys := by simp [startState, startOf, nothing]
  successions := by simp [startState, startOf, stateOf, nothing]
  creator := by simp [nothing]
  keyHistory := by simp [nothing]
  wrong := by
    simp only [nothing, Option.map_none, Option.getD_none]
    exact ⟨by simp, by simp, by simp⟩

theorem Standing.getLastD_rosterDigests
    (standing : Standing P chain history) :
    chain.rosterDigests.getLast? = some chain.rosterDigest := by
  rw [← standing.digests, getLast?_map, standing.latest]
  rfl

/-- A call from a cache continues the history the cache stands for. -/
theorem Continues.next
    {input : Accepting}
    {prepared : Prepared}
    {earlier : ChainBody}
    {history : List Held}
    (holds : PreparedHolds P input prepared)
    (standing : Standing P earlier history)
    (sameGroup : input.groupId = earlier.groupId)
    (extends_ : prepared.line.extending = some earlier.kept) :
    Continues P input prepared history where
  keyLine := by
    refine standing.keyLine.resume standing.latest ?_ ?_ ?_
    · simp [startState, startOf, stateOf, extends_, ChainBody.standing]
    · simp [startState, startOf, stateOf, extends_, ChainBody.standing]
    · have last := standing.getLastD_rosterDigests
      simp only [startState, startOf, stateOf, extends_, ChainBody.latest,
        ChainBody.kept, getLastD_eq_getLast?, last, Option.getD_some]
  areaLine := by
    refine standing.areaLine.resume ?_
    simp [startState, startOf, stateOf, extends_, ChainBody.standing]
  recorded := sameGroup ▸ standing.recorded
  bottom := by
    rw [holds.line.bottom, extends_, cachedVersion, Option.map_some,
      Option.getD_some, ← length_map (f := Held.digest),
      standing.digests]
    rfl
  digests := by
    rw [extends_, standing.digests]
    rfl
  keys := by
    intro key member
    have inKeys := mem_of_mem_drop member
    simp only [startState, startOf, stateOf, extends_, Option.isSome_some,
      ↓reduceIte, Option.map_some, Option.getD_some] at inKeys
    exact standing.holds.keys key inKeys
  successions := by
    intro verified member
    simp only [startState, startOf, stateOf, extends_, Option.map_some,
      Option.getD_some] at member
    exact standing.holds.successions verified member
  creator := by
    rw [extends_, standing.creator]
    rfl
  keyHistory := by
    rw [extends_, ← standing.keyHistory]
    rfl
  wrong := by
    rw [extends_]
    have length : history.length = earlier.rosterDigests.length := by
      rw [← standing.digests, length_map]
    rw [length]
    exact ⟨isChain_iff_pairwise.mp standing.holds.wrong_sorted,
      fun version member => (standing.holds.wrong_pos version member).1,
      standing.holds.wrong_le⟩

theorem KeyLine.keyVersion_first
    {state : State}
    (line : KeyLine P history state)
    {first : Held}
    (isFirst : history[0]? = some first) :
    first.roster.groupKeyVersion = 1 := by
  rw [line.windows first (mem_of_getElem? isFirst),
    line.versions isFirst, keyAt, Nat.add_eq_left, countP_eq_zero]
  intro tie member
  have positive := (line.bounded tie member).1
  simp only [decide_eq_true_eq]
  omega

theorem valid_of_verifyGroup
    {message : Bytes}
    {signature : GroupSignature}
    {key : GroupPublicKey}
    (verified : P.verifyGroup message signature key = true) :
    key.Valid := by
  unfold Primitives.verifyGroup at verified
  split at verified
  · simp at verified
  · split at verified
    · next ed25519 mlDsa =>
        exact ⟨Primitives.decode_isOk.mp ⟨_, ed25519⟩,
          Primitives.decode_isOk.mp ⟨_, mlDsa⟩⟩
    · simp at verified

/-- Every key of a non-empty history is valid. -/
theorem KeyLine.valid_keys
    {state : State}
    (line : KeyLine P history state)
    (present : history ≠ [])
    (later : ∀ key ∈ state.keys.drop 1, key.Valid) :
    ∀ key ∈ state.keys, key.Valid := by
  obtain ⟨start, isFirst⟩ : ∃ start, history[0]? = some start :=
    ⟨_, getElem?_eq_getElem (length_pos_iff.mpr present)⟩
  obtain ⟨first, found, signature, verified⟩ :=
    line.signed start (mem_of_getElem? isFirst)
  rw [line.keyVersion_first isFirst] at found
  intro key member
  cases keys : state.keys with
  | nil =>
    simp [keys] at member
  | cons head rest =>
    rw [keys] at member found later
    simp only [Nat.sub_self, getElem?_cons_zero,
      Option.some.injEq] at found
    rcases mem_cons.mp member with rfl | inRest
    · exact found ▸ valid_of_verifyGroup verified
    · exact later key inRest

/-- A history with the rosters an acceptance adds. -/
def Prepared.whole
    (prepared : Prepared)
    (input : Accepting)
    (history : List Held) :
    List Held :=
  history ++
    holdAll (startState input prepared).held.getLast? prepared.line.path

section

variable
    {input : Accepting}
    {prepared : Prepared}
    {history : List Held}
    {state : State}

/-- The history after a call is recorded from its first roster. -/
theorem Continues.recorded_whole
    (continues : Continues P input prepared history)
    (holds : PreparedHolds P input prepared) :
    Recorded P input.groupId (prepared.whole input history) := by
  have grouped := P.grouped_of_byDigest holds.rosters
  refine continues.recorded.append (continues.bottom ▸ holds.linked)
    ?_ ?_ ?_ _
  · intro served member
    exact holds.sameGroup served (holds.line.mem_values member)
  · intro index before after isBefore isAfter
    exact (grouped.digest
      (holds.line.chained.named isBefore isAfter)).1.symm
  · intro last isLast next isNext
    have digests := continues.digests
    cases extends_ : prepared.line.extending with
    | none =>
      simp only [extends_, Option.map_none, Option.getD_none] at digests
      have empty := map_eq_nil_iff.mp digests.symm
      simp [empty] at isLast
    | some cached =>
      simp only [extends_, Option.map_some, Option.getD_some] at digests
      have named := holds.line.continues cached extends_ next isNext
      rw [digests, getLast?_map, isLast, Option.map_some,
        Option.some.injEq] at named
      exact named.symm

theorem Continues.digests_whole
    (continues : Continues P input prepared history) :
    digestsOf prepared.line =
      (prepared.whole input history).map Held.digest := by
  simp [digestsOf, Prepared.whole, continues.digests]

theorem Continues.keyLine_whole
    (continues : Continues P input prepared history)
    (holds : PreparedHolds P input prepared)
    (passes :
      P.Passes (startState input prepared) prepared.line.path state) :
    KeyLine P (prepared.whole input history) state :=
  continues.keyLine.passes (continues.bottom ▸ holds.linked) passes

theorem Continues.areaLine_whole
    (continues : Continues P input prepared history)
    (holds : PreparedHolds P input prepared)
    (passes :
      P.Passes (startState input prepared) prepared.line.path state) :
    AreaLine (prepared.whole input history) state :=
  continues.areaLine.passes continues.keyLine
    (continues.bottom ▸ holds.linked) passes

theorem freshOf_eq
    (passes :
      P.Passes (startState input prepared) prepared.line.path state) :
    freshOf prepared.line state =
      holdAll (startState input prepared).held.getLast?
        prepared.line.path := by
  rw [freshOf, passes.held]
  cases extends_ : prepared.line.extending with
  | none =>
    simp [startState, startOf, stateOf, extends_]
  | some cached =>
    simp [startState, startOf, stateOf, extends_]

theorem Continues.whole_eq
    (continues : Continues P input prepared history)
    (passes :
      P.Passes (startState input prepared) prepared.line.path state) :
    prepared.whole input history =
      history.take
          ((digestsOf prepared.line).length - state.held.length) ++
        state.held := by
  obtain ⟨earlier, isEarlier⟩ := continues.keyLine.suffix
  have count :
      (digestsOf prepared.line).length - state.held.length =
        earlier.length := by
    rw [continues.digests_whole, passes.held, Prepared.whole, ← isEarlier]
    simp only [length_map, length_append]
    omega
  rw [count, passes.held, Prepared.whole, ← isEarlier]
  simp

/-- The keys after a pass are valid. -/
theorem Continues.valid_keys
    (continues : Continues P input prepared history)
    (holds : PreparedHolds P input prepared)
    (passes :
      P.Passes (startState input prepared) prepared.line.path state)
    (present : prepared.whole input history ≠ []) :
    ∀ key ∈ state.keys, key.Valid := by
  refine (continues.keyLine_whole holds passes).valid_keys present ?_
  obtain ⟨taken, given, keys, _⟩ := passes.taken
  intro key member
  have aligned := continues.keyLine.aligned
  rw [keys, drop_append_of_le_length (by omega)] at member
  rcases mem_append.mp member with earlier | new
  · exact continues.keys key earlier
  · obtain ⟨served, isTaken, rfl⟩ := mem_map.mp new
    obtain ⟨_, isCandidate⟩ := given served isTaken
    obtain ⟨_, _, parsed, _⟩ := holds.candidate isCandidate
    have valid := (groupSuccessionStatement_eq_ok.mp
      (parseGroupSuccession_eq_ok.mp parsed)).1
    exact ⟨valid.newEd25519PublicKey, valid.newMlDsaPublicKey⟩

/-- The successions a pass verified are valid. -/
theorem Continues.valid_successions
    (continues : Continues P input prepared history)
    (holds : PreparedHolds P input prepared)
    (passes :
      P.Passes (startState input prepared) prepared.line.path state) :
    ∀ verified ∈ state.verified, verified.Valid := by
  obtain ⟨taken, given, _, verifieds⟩ := passes.taken
  intro verified member
  rw [verifieds] at member
  rcases mem_append.mp member with earlier | new
  · exact continues.successions verified earlier
  · obtain ⟨served, isTaken, rfl⟩ := mem_map.mp new
    obtain ⟨_, isCandidate⟩ := given served isTaken
    obtain ⟨_, _, parsed, hashed⟩ := holds.candidate isCandidate
    have valid := (groupSuccessionStatement_eq_ok.mp
      (parseGroupSuccession_eq_ok.mp parsed)).1
    exact ⟨valid.tie_pos, valid.tie_le, by
      simp [hashed, Primitives.isDigest_digest], valid.signerUserId⟩

theorem Continues.keyHistory_whole
    (continues : Continues P input prepared history)
    (passes :
      P.Passes (startState input prepared) prepared.line.path state) :
    ((freshOf prepared.line state).flatMap fun held =>
        held.roster.members).foldl keepKeySet
          ((prepared.line.extending.map Cached.keyHistory).getD .empty) =
      ((prepared.whole input history).flatMap fun held =>
        held.roster.members).foldl keepKeySet .empty := by
  rw [freshOf_eq passes, continues.keyHistory, Prepared.whole,
    flatMap_append, foldl_append]

/-- The versions judged wrong ascend over the whole history. -/
theorem Continues.wrong_whole
    (continues : Continues P input prepared history)
    (holds : PreparedHolds P input prepared)
    (passes :
      P.Passes (startState input prepared) prepared.line.path state) :
    Ascends
      (((freshOf prepared.line state).map Held.roster).foldl
        (P.judgeOwn input.me)
        (P.ownStart input.me prepared.line.extending)).wrongAt
      (prepared.whole input history).length := by
  have linked := holds.linked
  rw [continues.bottom] at linked
  have ascends := @Primitives.ascends_foldl_judgeOwn P input.me
    ((freshOf prepared.line state).map Held.roster)
    (P.ownStart input.me prepared.line.extending) _ continues.wrong
    (by
      intro index roster found
      rw [freshOf_eq passes, map_roster_holdAll, getElem?_map,
        Option.map_eq_some_iff] at found
      obtain ⟨served, isServed, rfl⟩ := found
      exact linked.versions isServed)
  rw [freshOf_eq passes] at ascends ⊢
  simpa [Prepared.whole] using ascends

variable {latest : Held}

/-- The creator kept is the signer of the first roster. -/
theorem Continues.creator_whole
    (continues : Continues P input prepared history)
    (passes :
      P.Passes (startState input prepared) prepared.line.path state)
    (isLatest : state.held.getLast? = some latest) :
    (prepared.whole input history).head?.map
        (fun held => held.roster.signerUserId) =
      some (P.keptOf input.me prepared.line state latest).creatorUserId := by
  have creator := continues.creator
  cases extends_ : prepared.line.extending with
  | some cached =>
    simp only [extends_, Option.map_some] at creator
    cases starts : history with
    | nil =>
      simp [starts] at creator
    | cons first rest =>
      rw [starts, head?_cons, Option.map_some,
        Option.some.injEq] at creator
      simp [Prepared.whole, Primitives.keptOf, extends_, creator]
  | none =>
    have noHistory : history = [] := by
      simpa [extends_] using creator.symm
    have held := passes.held
    have noneHeld : (startState input prepared).held = [] := by
      simp [startState, startOf, stateOf, extends_]
    have same : prepared.whole input history = state.held := by
      rw [held, noneHeld, Prepared.whole, noHistory, noneHeld]
    rw [same]
    cases isHeld : state.held with
    | nil =>
      simp [isHeld] at isLatest
    | cons first rest =>
      simp [Primitives.keptOf, extends_, isHeld]

/-- What a call keeps is well formed. -/
theorem Continues.kept_holds
    (continues : Continues P input prepared history)
    (holds : PreparedHolds P input prepared)
    (passes :
      P.Passes (startState input prepared) prepared.line.path state)
    (isLatest : state.held.getLast? = some latest) :
    (P.keptOf input.me prepared.line state latest).Holds P
      input.groupId := by
  have keyLine := continues.keyLine_whole holds passes
  have areaLine := continues.areaLine_whole holds passes
  have recorded := continues.recorded_whole holds
  have digests := continues.digests_whole
  have isLast := keyLine.getLast?_held ▸ isLatest
  have present : prepared.whole input history ≠ [] := by
    intro empty
    simp [empty] at isLast
  have member := mem_of_getLast? isLast
  have length :
      (digestsOf prepared.line).length =
        (prepared.whole input history).length := by
    rw [digests, length_map]
  have wrong := continues.wrong_whole holds passes
  have latestVersion :
      latest.roster.rosterVersion =
        (prepared.whole input history).length := by
    rw [getLast?_eq_getElem?] at isLast
    have version := keyLine.versions isLast
    have positive := length_pos_iff.mpr present
    omega
  have tieOf {verified : Verified} (inState : verified ∈ state.verified) :
      verified.lastRosterVersion ∈ state.ties :=
    mem_map_of_mem inState
  exact {
    digests := by
      intro digest inDigests
      simp only [Primitives.keptOf, digests] at inDigests
      obtain ⟨held, inWhole, rfl⟩ := mem_map.mp inDigests
      rw [recorded.hashed held inWhole]
      exact P.isDigest_digest _
    parsed := recorded.parsed latest member
    groupId := recorded.ofGroup latest member
    version := by
      simp only [Primitives.keptOf]
      rw [latestVersion, length]
    last := by
      simp only [Primitives.keptOf]
      rw [digests, getLast?_map, isLast, Option.map_some,
        recorded.hashed latest member]
    keys := continues.valid_keys holds passes present
    keyVersion := by
      obtain ⟨key, found, _⟩ := keyLine.signed latest member
      have inside := (List.getElem?_eq_some_iff.mp found).1
      simp only [Primitives.keptOf]
      omega
    aligned := keyLine.aligned
    successions := continues.valid_successions holds passes
    ties_le := by
      intro verified inState
      simp only [Primitives.keptOf]
      rw [length]
      exact (keyLine.bounded _ (tieOf inState)).2
    ties_sorted := isChain_iff_pairwise.mpr keyLine.sorted
    creatorUserId := by
      have creator := continues.creator_whole passes isLatest
      obtain ⟨first, isFirst, signer⟩ := Option.map_eq_some_iff.mp creator
      rw [← signer]
      exact (recorded.valid (mem_of_head? isFirst)).signerUserId
    history := by
      simp only [Primitives.keptOf]
      rw [continues.keyHistory_whole passes]
      exact keySetsHold_foldl keySetsHold_empty
        fun entry inHistory => recorded.validEntry inHistory
    areas := by
      simp only [Primitives.keptOf, areaLine.ledger]
      exact areaLine.lawful.cachedAreasHold
        fun row inRows => recorded.validRow inRows
    rows := by
      intro area inRoster
      simp only [Primitives.keptOf, areaLine.ledger] at inRoster ⊢
      obtain ⟨init, whole⟩ := getLast?_eq_some_iff.mp isLast
      obtain ⟨before, after, isRow⟩ := append_of_mem inRoster
      have rows :
          rowsOf (prepared.whole input history) =
            (rowsOf init ++ before) ++ area :: after := by
        rw [whole, rowsOf, flatMap_append, flatMap_singleton,
          isRow, append_assoc]
        rfl
      have lawful := areaLine.lawful
      rw [rows] at lawful ⊢
      refine lawful.cachedRowHolds ?_
      have sorted := (recorded.valid member).areas_sorted
      rw [isRow, map_append, pairwise_append] at sorted
      intro later inAfter same
      have before := (pairwise_cons.mp sorted.2.1).1
        later.workspaceId (mem_map_of_mem inAfter)
      rw [same] at before
      exact Before.irrefl _ before
    firstRows := by
      intro first
      simp only [Primitives.keptOf, areaLine.ledger] at first ⊢
      obtain ⟨init, whole⟩ := getLast?_eq_some_iff.mp isLast
      rw [latestVersion, whole, length_append,
        length_singleton] at first
      have empty : init = [] := eq_nil_of_length_eq_zero (by omega)
      have rows : rowsOf (prepared.whole input history) =
          latest.roster.areas := by
        simp [whole, empty, rowsOf]
      have lawful := areaLine.lawful
      rw [rows] at lawful ⊢
      refine lawful.length_keys
        ((recorded.valid member).areas_sorted.imp ?_)
      rintro before _ ascends rfl
      exact Before.irrefl before ascends
    wrong_pos := by
      intro version inWrong
      have reached := wrong.reached version inWrong
      have small := (recorded.valid member).version_le
      rw [latestVersion] at small
      exact ⟨wrong.positive version inWrong, reached.trans small⟩
    wrong_le := by
      intro version inWrong
      simp only [Primitives.keptOf]
      rw [length]
      exact wrong.reached version inWrong
    wrong_sorted := isChain_iff_pairwise.mpr wrong.sorted }

/-- An accepted chain stands for the history it continues. -/
theorem Continues.standing
    (continues : Continues P input prepared history)
    (holds : PreparedHolds P input prepared)
    (passes :
      P.Passes (startState input prepared) prepared.line.path state)
    (isLatest : state.held.getLast? = some latest)
    {digest : String}
    (isDigest :
      P.groupKeyDigest (state.keys.getLastD ⟨"", ""⟩) = .ok digest) :
    Standing P
      (P.bodyOf input prepared.rosters prepared.line state latest digest)
      (prepared.whole input history) := by
  have keyLine := continues.keyLine_whole holds passes
  have areaLine := continues.areaLine_whole holds passes
  have digests := continues.digests_whole
  have isLast := keyLine.getLast?_held ▸ isLatest
  have last : (digestsOf prepared.line).getLastD "" = latest.digest := by
    rw [digests, getLastD_eq_getLast?, getLast?_map, isLast]
    rfl
  exact {
    cache := rfl
    holds := continues.kept_holds holds passes isLatest
    keyLine := by
      refine keyLine.resume isLast rfl rfl ?_
      simp only [ChainBody.standing, stateOf, ChainBody.kept,
        Primitives.bodyOf, Primitives.keptOf, last]
    areaLine := by
      refine areaLine.resume ?_
      simp only [ChainBody.standing, stateOf, ledgerOf, ChainBody.kept,
        Primitives.bodyOf, Primitives.keptOf, areaLine.ledger]
      exact AreaLedger.of_kept _
    recorded := continues.recorded_whole holds
    digests := digests.symm
    latest := isLast
    creator := continues.creator_whole passes isLatest
    keyHistory := continues.keyHistory_whole passes
    kind := rfl
    keyVersion := rfl
    key := rfl
    keyDigest := isDigest
    due := rfl }

end

/-- A cache a chain wrote is read back as what the chain kept. -/
theorem Standing.cached_eq
    (standing : Standing P chain history)
    {input : Accepting}
    {cached : Option Cached}
    (given : input.cache = some chain.cache)
    (device : input.server = false)
    (read : P.cachedOf input = .ok cached) :
    cached = some chain.kept ∧ input.groupId = chain.groupId := by
  rw [Primitives.cachedOf, given, device] at read
  dsimp only at read
  cases checked : P.checkCache input.groupId chain.cache false with
  | error reason =>
    simp [checked, Except.map] at read
  | ok found =>
    simp only [checked, Except.map, Except.ok.injEq] at read
    subst read
    have sameGroup := (P.cacheHolds_of_checkCache checked).sameGroup
    rw [standing.cache] at sameGroup checked
    have groupIs : input.groupId = chain.groupId := sameGroup.symm
    rw [groupIs, P.checkCache_toCache standing.holds,
      Except.ok.injEq] at checked
    exact ⟨by rw [checked], groupIs⟩

theorem Standing.continues
    (standing : Standing P chain history)
    {input : Accepting}
    {prepared : Prepared}
    (given : input.cache = some chain.cache)
    (device : input.server = false)
    (holds : PreparedHolds P input prepared) :
    prepared.line.extending = some chain.kept ∧
        Continues P input prepared history ∨
      prepared.line.extending = none ∧ Continues P input prepared [] := by
  obtain ⟨isCached, sameGroup⟩ :=
    standing.cached_eq given device holds.own.cached
  have extends_ := holds.line.extending
  rw [isCached] at extends_
  split at extends_
  · exact .inl ⟨extends_, .next holds standing sameGroup extends_⟩
  · exact .inr ⟨extends_, .first holds extends_⟩

/-- Every chain reached by accepting stands for its history. -/
theorem Primitives.History.standing
    (isHistory : P.History chain history) :
    Standing P chain history := by
  induction isHistory with
  | @first input chain state fresh accepted =>
    obtain ⟨prepared, holds, passed, _, latest, isLatest, digest, isDigest,
      rfl⟩ := P.accept_eq_ok.mp accepted
    have passes := P.passes_of_pass passed
    have uncached : prepared.own.cached = none := by
      have cached := holds.own.cached
      simp only [Primitives.cachedOf, AcceptInput.accepting, fresh,
        Except.ok.injEq] at cached
      exact cached.symm
    have nothing : prepared.line.extending = none := by
      rw [holds.line.extending, uncached]
      simp
    have standing :=
      (Continues.first holds nothing).standing holds passes isLatest
        isDigest
    have held := (Continues.first holds nothing).whole_eq passes
    rw [take_nil, nil_append] at held
    exact held ▸ standing
  | @next earlier chain history input state before cached accepted
      standing =>
      obtain ⟨prepared, holds, passed, _, latest, isLatest, digest, isDigest,
        rfl⟩ := P.accept_eq_ok.mp accepted
      have passes := P.passes_of_pass passed
      rcases standing.continues cached rfl holds with ⟨_, continues⟩ |
        ⟨_, continues⟩
      · have whole := continues.whole_eq passes
        exact whole ▸ continues.standing holds passes isLatest isDigest
      · have whole := continues.whole_eq passes
        have all :
            (digestsOf prepared.line).length - state.held.length = 0 := by
          have same := congrArg List.length whole
          simp only [take_nil, nil_append,
            Prepared.whole] at same
          rw [continues.digests_whole, length_map, Prepared.whole]
          simp only [nil_append, same, Nat.sub_self]
        rw [take_nil, nil_append] at whole
        have dropped :
            history.take ((digestsOf prepared.line).length -
              state.held.length) ++ state.held =
              prepared.whole input.accepting [] := by
          rw [all, whole]
          rfl
        exact dropped ▸ continues.standing holds passes isLatest isDigest

end

end HushOS
