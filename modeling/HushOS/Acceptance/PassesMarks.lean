import HushOS.Acceptance.Toy

namespace HushOS

open Toolkit List

/-!
# An accepted chain passes through every mark

Pins, the cache, the join mark and the pair marks are checked at different
points of acceptance; `Primitives.passesMarks` says of the accepted chain what
all of them together leave: it is on every mark a person holds.
-/

/-- What a group key's digest is taken of, when its halves are keys. -/
def GroupPublicKey.bytes (key : GroupPublicKey) : Option Bytes :=
  match decode key.ed25519PublicKey 32,
      decode key.mlDsaPublicKey ML_DSA_PUBLIC_KEY_BYTES with
  | .ok ed25519, .ok mlDsa => some (ed25519 ++ mlDsa)
  | _, _ => none

/-- What a first-keys mark is taken of, when its parts are well formed. -/
def firstKeysBytes (ed25519PublicKey mlDsaPublicKeyDigest : String) :
    Option Bytes :=
  match decode ed25519PublicKey 32, decode mlDsaPublicKeyDigest 32 with
  | .ok ed25519, .ok mlDsa => some (ed25519 ++ mlDsa)
  | _, _ => none

/-- The messages whose hashes stand for keys in an input and its chain. -/
def Primitives.markedMessages
    (P : Primitives)
    (input : AcceptInput)
    (chain : ChainBody) :
    Set Bytes :=
  { message |
    (∃ pin ∈ input.pins,
      firstKeysBytes pin.firstEd25519PublicKey
        pin.firstMlDsaPublicKeyDigest = some message) ∨
    (∃ first ∈ chain.groupKeys.head?, ∃ digest,
      P.mlDsaDigest first.mlDsaPublicKey = some digest ∧
        firstKeysBytes first.ed25519PublicKey digest = some message) ∨
    (∃ key ∈ chain.groupKeys, key.bytes = some message) ∨
    ∃ cache ∈ input.cache, ∃ key ∈ cache.groupKeys,
      key.bytes = some message }

/-- A chain that passes through every mark a person holds. -/
structure PassesMarks
    (P : Primitives)
    (input : AcceptInput)
    (chain : ChainBody) : Prop where
  pinRosters : ∀ pin ∈ input.pins, 1 ≤ pin.rosterVersion ∧
    chain.rosterDigests[pin.rosterVersion - 1]? = some pin.rosterDigest
  pinKeys : ∀ pin ∈ input.pins, 1 ≤ pin.keyVersion ∧
    ∃ key, chain.groupKeys[pin.keyVersion - 1]? = some key ∧
      P.groupKeyDigest key = .ok pin.groupKeyDigest
  pinFirst : ∀ pin ∈ input.pins,
    ∃ first, chain.groupKeys[0]? = some first ∧
      first.ed25519PublicKey = pin.firstEd25519PublicKey ∧
      P.mlDsaDigest first.mlDsaPublicKey =
        some pin.firstMlDsaPublicKeyDigest
  cacheRosters : ∀ cache ∈ input.cache, ∀ {index : Nat} {digest : String},
    cache.rosterDigests[index]? = some digest →
      chain.rosterDigests[index]? = some digest
  cacheKeys : ∀ cache ∈ input.cache, ∀ {index : Nat} {key : GroupPublicKey},
    cache.groupKeys[index]? = some key →
      chain.groupKeys[index]? = some key
  join : ∀ mark ∈ input.joinMark,
    ∃ digest key,
      chain.rosterDigests[mark.rosterVersion - 1]? = some digest ∧
        chain.groupKeys[keyVersionAt chain.cache.successions
          mark.rosterVersion - 1]? = some key ∧
        P.joinCode digest key
            (keyVersionAt chain.cache.successions mark.rosterVersion) =
          .ok mark.code
  pairs : ∀ mark ∈ input.pairMarks,
    ∃ digest key,
      chain.rosterDigests[mark.rosterVersion - 1]? = some digest ∧
        chain.groupKeys[keyVersionAt chain.cache.successions
          mark.rosterVersion - 1]? = some key ∧
        P.pairCodeOf digest key
            (keyVersionAt chain.cache.successions mark.rosterVersion)
            input.me.userId mark.other =
          .ok mark.code

theorem checkGroupPin_holds
    {groupId : String}
    {pin read : GroupPin}
    (passed : checkGroupPin groupId pin = .ok read) :
    1 ≤ pin.rosterVersion ∧ 1 ≤ pin.keyVersion ∧
      isBytesOf pin.firstEd25519PublicKey 32 = true ∧
      isBytesOf pin.firstMlDsaPublicKeyDigest 32 = true := by
  simp only [checkGroupPin, bind_eq_ok, exists_unit, refuseIf_eq_ok,
    uuid_eq_ok, integer_eq_ok, bytesOf_eq_ok, digestOf_eq_ok,
    Json.Plain.text.injEq, Json.Plain.number.injEq] at passed
  obtain ⟨_, _, _, _, _, _, ⟨rfl, ed25519⟩, _, ⟨rfl, mlDsa⟩, _,
    ⟨rfl, keyVersion, _⟩, _, _, _, ⟨rfl, rosterVersion, _⟩, _⟩ := passed
  exact ⟨rosterVersion, keyVersion, ed25519, mlDsa⟩

theorem joinable_of_twelveWords
    {code : List String}
    (words : twelveWords code = true) :
    Joinable ' ' code := by
  simp only [twelveWords, Bool.and_eq_true, all_eq_true,
    decide_eq_true_eq] at words
  intro word member
  obtain ⟨⟨long, _⟩, letters⟩ := words.2 word member
  constructor
  · rintro rfl
    simp at long
  · intro spaced
    have low := (letters ' ' spaced).1
    revert low
    decide

section

variable {P : Primitives}

theorem joinable_of_wordsOf
    {input : Bytes}
    {code : List String}
    (words : P.wordsOf input = .ok code) :
    Joinable ' ' code := by
  simp only [Primitives.wordsOf, Primitives.fingerprintWords] at words
  split at words
  · rw [Except.ok.injEq] at words
    subst words
    intro word member
    obtain ⟨index, _, rfl⟩ := mem_map.mp member
    refine P.spaceless_wordlist _ ?_
    rw [getD_eq_getElem?_getD, getElem?_eq_getElem]
    · exact getElem_mem _
    · rw [P.length_wordlist]
      exact Nat.mod_lt _ (by decide)
  · simp at words

theorem joinable_of_joinCode
    {digest : String}
    {key : GroupPublicKey}
    {version : Nat}
    {code : List String}
    (isCode : P.joinCode digest key version = .ok code) :
    Joinable ' ' code := by
  simp only [Primitives.joinCode, bind_eq_ok] at isCode
  obtain ⟨_, _, words⟩ := isCode
  exact joinable_of_wordsOf words

theorem joinable_of_pairCodeOf
    {digest userId otherUserId : String}
    {key : GroupPublicKey}
    {version : Nat}
    {code : List String}
    (isCode : P.pairCodeOf digest key version userId otherUserId = .ok code) :
    Joinable ' ' code := by
  simp only [Primitives.pairCodeOf, bind_eq_ok] at isCode
  obtain ⟨_, _, _, _, _, _, _, _, words⟩ := isCode
  exact joinable_of_wordsOf words

theorem valid_of_codeInput
    {digest : String}
    {key : GroupPublicKey}
    {version : Nat}
    {input : Bytes}
    (isInput : P.codeInput digest key version = .ok input) :
    key.Valid := by
  simp only [Primitives.codeInput, bind_eq_ok] at isInput
  obtain ⟨_, _, _, _, keyDigest, isDigest, _⟩ := isInput
  exact exists_groupKeyDigest_iff.mp ⟨keyDigest, isDigest⟩

theorem valid_of_joinCode
    {digest : String}
    {key : GroupPublicKey}
    {version : Nat}
    {code : List String}
    (isCode : P.joinCode digest key version = .ok code) :
    key.Valid := by
  simp only [Primitives.joinCode, bind_eq_ok] at isCode
  obtain ⟨_, isInput, _⟩ := isCode
  exact valid_of_codeInput isInput

theorem valid_of_pairCodeOf
    {digest userId otherUserId : String}
    {key : GroupPublicKey}
    {version : Nat}
    {code : List String}
    (isCode : P.pairCodeOf digest key version userId otherUserId = .ok code) :
    key.Valid := by
  simp only [Primitives.pairCodeOf, bind_eq_ok] at isCode
  obtain ⟨_, _, _, _, _, _, _, isInput, _⟩ := isCode
  exact valid_of_codeInput isInput

/-- A met code is that of the roster and key in force there. -/
theorem exists_of_code
    {rosterDigests : List String}
    {keys : List GroupPublicKey}
    {rosterVersion keyVersion : Nat}
    {code : List String}
    {codeOf :
      String → GroupPublicKey → Nat → Except CryptoError (List String)}
    (words : twelveWords code = true)
    (positive : 1 ≤ rosterVersion)
    (joins : ∀ {digest key version found},
      codeOf digest key version = .ok found → Joinable ' ' found)
    (valid : ∀ {digest key version found},
      codeOf digest key version = .ok found → key.Valid)
    (met :
      rosterVersion ≤ rosterDigests.length ∧
        ∃ found,
          codeOf (rosterDigests.getD (rosterVersion - 1) "")
              (keys.getD (keyVersion - 1) ⟨"", ""⟩) keyVersion =
            .ok found ∧
            joined ' ' found = joined ' ' code) :
    ∃ digest key,
      rosterDigests[rosterVersion - 1]? = some digest ∧
        keys[keyVersion - 1]? = some key ∧
        codeOf digest key keyVersion = .ok code := by
  obtain ⟨reached, found, isFound, same⟩ := met
  have equal := joined_injective (joins isFound)
    (joinable_of_twelveWords words) same
  subst equal
  have isDigest := getElem?_eq_getElem
    (by omega : rosterVersion - 1 < rosterDigests.length)
  rw [getD_eq_getElem?_getD, isDigest, Option.getD_some] at isFound
  cases isKey : keys[keyVersion - 1]? with
  | none =>
    rw [getD_eq_getElem?_getD, isKey, Option.getD_none] at isFound
    exact absurd (valid isFound).ed25519PublicKey (by decide)
  | some key =>
    rw [getD_eq_getElem?_getD, isKey, Option.getD_some] at isFound
    exact ⟨_, key, isDigest, rfl, isFound⟩

theorem Primitives.digest_ne_empty (bytes : Bytes) :
    P.digest bytes ≠ "" := by
  intro empty
  have shaped := P.isDigest_digest bytes
  rw [empty] at shaped
  revert shaped
  decide

/-- Equal marks of first keys are marks of the same keys. -/
theorem firstKeys_eq_of_mark
    {ed25519 otherEd25519 : String}
    {mlDsa : String}
    {otherMlDsa : Option String}
    (isEd25519 : isBytesOf ed25519 32 = true)
    (isMlDsa : isBytesOf mlDsa 32 = true)
    (apart : ∀ message ∈ firstKeysBytes ed25519 mlDsa,
      ∀ other ∈ otherMlDsa.bind (firstKeysBytes otherEd25519),
        P.sha256 message = P.sha256 other → message = other)
    (same : P.firstKeysMark otherEd25519 otherMlDsa =
      P.firstKeysMark ed25519 (some mlDsa)) :
    otherEd25519 = ed25519 ∧ otherMlDsa = some mlDsa := by
  obtain ⟨edBytes, decodedEd⟩ := Primitives.decode_isOk.mpr isEd25519
  obtain ⟨mlBytes, decodedMl⟩ := Primitives.decode_isOk.mpr isMlDsa
  have mark : P.firstKeysMark ed25519 (some mlDsa) =
      P.digest (edBytes ++ mlBytes) := by
    simp only [Primitives.firstKeysMark, Option.getD_some, decodedEd,
      decodedMl]
  rw [mark, Primitives.firstKeysMark] at same
  split at same
  · next otherEd otherMl decodedOtherEd decodedOtherMl =>
      cases given : otherMlDsa with
      | none =>
        rw [given, Option.getD_none] at decodedOtherMl
        have shaped := Primitives.decode_isOk.mp ⟨_, decodedOtherMl⟩
        exact absurd shaped (by decide)
      | some found =>
        rw [given, Option.getD_some] at decodedOtherMl
        have hashes := P.sha256_eq_of_digest_eq same
        have messages := apart (edBytes ++ mlBytes)
          (by simp only [firstKeysBytes, decodedEd, decodedMl]; rfl)
          (otherEd ++ otherMl)
          (by
            simp only [given, Option.bind_some, firstKeysBytes,
              decodedOtherEd, decodedOtherMl]
            rfl) hashes.symm
        have lengths : edBytes.length = otherEd.length := by
          rw [(Primitives.encode_of_decode decodedEd).2,
            (Primitives.encode_of_decode decodedOtherEd).2]
        obtain ⟨rfl, rfl⟩ := append_inj messages lengths
        have ed25519Is := (Primitives.encode_of_decode decodedOtherEd).1
        have mlDsaIs := (Primitives.encode_of_decode decodedOtherMl).1
        rw [← (Primitives.encode_of_decode decodedEd).1] at ed25519Is
        rw [← (Primitives.encode_of_decode decodedMl).1] at mlDsaIs
        exact ⟨ed25519Is, congrArg some mlDsaIs⟩
  · exact absurd same.symm (P.digest_ne_empty _)

/-- Equal digests of group keys are digests of one key. -/
theorem groupKey_eq_of_digest
    {first second : GroupPublicKey}
    {digest : String}
    (isFirst : P.groupKeyDigest first = .ok digest)
    (isSecond : P.groupKeyDigest second = .ok digest)
    (apart : ∀ message ∈ first.bytes, ∀ other ∈ second.bytes,
      P.sha256 message = P.sha256 other → message = other) :
    first = second := by
  rw [P.groupKeyDigest_eq_ok] at isFirst isSecond
  obtain ⟨firstEd, firstMl, decodedFirstEd, decodedFirstMl, rfl⟩ := isFirst
  obtain ⟨secondEd, secondMl, decodedSecondEd, decodedSecondMl, same⟩ :=
    isSecond
  have messages := apart (firstEd ++ firstMl)
    (by simp only [GroupPublicKey.bytes, decodedFirstEd, decodedFirstMl]; rfl)
    (secondEd ++ secondMl)
    (by
      simp only [GroupPublicKey.bytes, decodedSecondEd, decodedSecondMl]
      rfl)
    (P.sha256_eq_of_digest_eq same)
  have lengths : firstEd.length = secondEd.length := by
    rw [(Primitives.encode_of_decode decodedFirstEd).2,
      (Primitives.encode_of_decode decodedSecondEd).2]
  obtain ⟨rfl, rfl⟩ := append_inj messages lengths
  have ed25519 := (Primitives.encode_of_decode decodedFirstEd).1
  have mlDsa := (Primitives.encode_of_decode decodedFirstMl).1
  rw [← (Primitives.encode_of_decode decodedSecondEd).1] at ed25519
  rw [← (Primitives.encode_of_decode decodedSecondMl).1] at mlDsa
  cases first
  cases second
  exact congrArg₂ GroupPublicKey.mk ed25519 mlDsa

section

variable
    {input : Accepting}
    {prepared : Prepared}
    {state : State}

theorem MarksMet.roster
    (met : MarksMet P input prepared state)
    {keySides : List (Nat × MarkSide)}
    (marked :
      MarkedBy P input.pins prepared.own.cached keySides prepared.marks)
    {version : Nat}
    {side : MarkSide}
    (member : side ∈ prepared.marks.rosters.listAt version)
    (positive : 1 ≤ version) :
    (digestsOf prepared.line)[version - 1]? = some side.digest := by
  have isMarked : version ∈ prepared.marks.rosters.keys := by
    rw [marked.rosters, mem_listAt_placed] at member
    rw [marked.rosters, mem_keys_placed]
    exact ⟨side, member⟩
  obtain ⟨reached, same⟩ := met.rosters version isMarked
  rw [same side member, getD_eq_getElem?_getD,
    getElem?_eq_getElem (by omega)]
  rfl

/-- Each marked key version is in the chain with the marked digest. -/
theorem MarksMet.key
    (met : MarksMet P input prepared state)
    (holds : PreparedHolds P input prepared)
    (kept : state.keyMarks = prepared.marks.keyMarks)
    {keySides : List (Nat × MarkSide)}
    (marked :
      MarkedBy P input.pins prepared.own.cached keySides prepared.marks)
    {version : Nat}
    {side : MarkSide}
    (member : side ∈ prepared.marks.keys.listAt version)
    (positive : 1 ≤ version) :
    ∃ key, state.keys[version - 1]? = some key ∧
      P.groupKeyDigest key = .ok side.digest := by
  have isMarked : version ∈ state.keyMarks.keys := by
    rw [kept]
    exact marked.mem_keyMarks.mpr ⟨side, member⟩
  obtain ⟨reached, same⟩ := met.keys version isMarked
  rw [kept, Marks.digest_get?_keyMarks holds.agreed member,
    getD_eq_getElem?_getD,
    getElem?_eq_getElem (by omega), Option.getD_some] at same
  exact ⟨_, getElem?_eq_getElem (by omega), same⟩

theorem keyMarks_of_passes
    (passes :
      P.Passes (startState input prepared) prepared.line.path state) :
    state.keyMarks = prepared.marks.keyMarks :=
  passes.framed.keyMarks

theorem PreparedHolds.cached_holds
    (holds : PreparedHolds P input prepared)
    {cache : GroupChainCache}
    (given : input.cache = some cache) :
    ∃ cached, prepared.own.cached = some cached ∧
      CacheHolds P input.groupId cache cached := by
  have read := holds.own.cached
  rw [Primitives.cachedOf, given] at read
  dsimp only at read
  cases checked : P.checkCache input.groupId cache input.server with
  | error reason =>
    simp [checked, Except.map] at read
  | ok cached =>
    simp only [checked, Except.map, Except.ok.injEq] at read
    exact ⟨cached, read.symm, P.cacheHolds_of_checkCache checked⟩

theorem PreparedHolds.extending_eq
    (holds : PreparedHolds P input prepared)
    {cached : Cached}
    (extends_ : prepared.line.extending = some cached) :
    prepared.own.cached = some cached := by
  have extending := holds.line.extending
  rw [extends_] at extending
  split at extending
  · exact extending.symm
  · simp at extending

/-- The first key of the chain carries the marked digest. -/
theorem PreparedHolds.first_key
    (holds : PreparedHolds P input prepared)
    (passes :
      P.Passes (startState input prepared) prepared.line.path state)
    {keySides : List (Nat × MarkSide)}
    (marked :
      MarkedBy P input.pins prepared.own.cached keySides prepared.marks)
    {side : MarkSide}
    (member : side ∈ prepared.marks.first) :
    ∃ first, state.keys[0]? = some first ∧
      P.firstKeysMark first.ed25519PublicKey
          (P.mlDsaDigest first.mlDsaPublicKey) =
        side.digest := by
  obtain ⟨taken, _, keys, _⟩ := passes.taken
  have agreed := (agree_eq_ok.mp holds.agreed).1
  cases extends_ : prepared.line.extending with
  | none =>
    have start : (startState input prepared).keys = [input.firstKeys] := by
      simp [startState, startOf, extends_]
    rw [keys, start]
    refine ⟨input.firstKeys, rfl, ?_⟩
    have checked := holds.firstKeys
    cases isFirst : prepared.marks.first with
    | nil =>
      simp [isFirst] at member
    | cons mark rest =>
      simp only [Primitives.checkFirstKeys, isFirst, refuseIf_eq_ok,
        not_not] at checked
      rw [checked]
      exact agreed mark (by simp [isFirst]) side member
  | some cached =>
    have isCached := holds.extending_eq extends_
    have start : (startState input prepared).keys = cached.groupKeys := by
      simp [startState, startOf, stateOf, extends_]
    have cacheSide : P.cacheFirstSide cached ∈ prepared.marks.first := by
      rw [marked.first, isCached]
      simp
    have aligned :
        ∃ first rest, cached.groupKeys = first :: rest := by
      have read := holds.own.cached
      cases given : input.cache with
      | none =>
        simp [Primitives.cachedOf, given, isCached] at read
      | some cache =>
        obtain ⟨found, isFound, cacheHolds⟩ := holds.cached_holds given
        rw [isCached, Option.some.injEq] at isFound
        subst isFound
        have length := cacheHolds.holds.aligned
        cases groupKeys : cached.groupKeys with
        | nil =>
          simp [groupKeys] at length
        | cons first rest =>
          exact ⟨first, rest, rfl⟩
    obtain ⟨first, rest, groupKeys⟩ := aligned
    rw [keys, start, groupKeys]
    refine ⟨first, rfl, ?_⟩
    have same := agreed _ cacheSide side member
    simpa [Primitives.cacheFirstSide, groupKeys] using same

end

/--
An accepted chain passes through every mark the person holds, where no two of
the keys marked have one hash.
-/
theorem Primitives.passesMarks
    {input : AcceptInput}
    {chain : ChainBody}
    (apart : Set.InjOn P.sha256 (P.markedMessages input chain))
    (accepted : P.acceptRosters input = .ok (.accepted chain)) :
    PassesMarks P input chain := by
  obtain ⟨state, accepts⟩ := P.acceptRosters_eq_accepted.mp accepted
  obtain ⟨prepared, holds, passed, checked, latest, isLatest, digest,
    isDigest, isChain⟩ := P.accept_eq_ok.mp accepts
  have passes := P.passes_of_pass passed
  have met := P.checkMarks_eq_ok.mp checked
  have kept := keyMarks_of_passes passes
  obtain ⟨keySides, marked⟩ := P.marksOf_eq_ok.mp holds.marks
  have rosterDigests : chain.rosterDigests = digestsOf prepared.line := by
    rw [isChain]
    rfl
  have groupKeys : chain.groupKeys = state.keys := by
    rw [isChain]
    rfl
  have successions : chain.cache.successions = state.verified := by
    rw [isChain]
    rfl
  have pinShape {pin : GroupPin} (member : pin ∈ input.pins) :
      1 ≤ pin.rosterVersion ∧ 1 ≤ pin.keyVersion ∧
        isBytesOf pin.firstEd25519PublicKey 32 = true ∧
        isBytesOf pin.firstMlDsaPublicKeyDigest 32 = true := by
    obtain ⟨read, passedPin⟩ := holds.own.pins pin member
    exact checkGroupPin_holds passedPin
  exact {
    pinRosters := by
      intro pin member
      obtain ⟨positive, _⟩ := pinShape member
      refine ⟨positive, ?_⟩
      have isSide : pinRosterSide pin ∈
          prepared.marks.rosters.listAt pin.rosterVersion := by
        rw [marked.rosters, mem_listAt_placed]
        exact mem_append_left _ (mem_map_of_mem member)
      rw [rosterDigests]
      exact met.roster marked isSide positive
    pinKeys := by
      intro pin member
      obtain ⟨_, positive, _⟩ := pinShape member
      have isSide : pinKeySide pin ∈
          prepared.marks.keys.listAt pin.keyVersion := by
        rw [marked.keys, mem_listAt_placed]
        exact mem_append_left _ (mem_map_of_mem member)
      rw [groupKeys]
      exact ⟨positive, met.key holds kept marked isSide positive⟩
    pinFirst := by
      intro pin member
      obtain ⟨_, _, ed25519, mlDsa⟩ := pinShape member
      have isSide : P.pinFirstSide pin ∈ prepared.marks.first := by
        rw [marked.first]
        exact mem_append_left _ (mem_map_of_mem member)
      obtain ⟨first, isFirst, same⟩ := holds.first_key passes marked isSide
      rw [← groupKeys] at isFirst
      refine ⟨first, isFirst, firstKeys_eq_of_mark ed25519 mlDsa ?_ same⟩
      intro message isMessage other isOther hashes
      refine apart (.inl ⟨pin, member, isMessage⟩) ?_ hashes
      rw [Option.mem_def, Option.bind_eq_some_iff] at isOther
      obtain ⟨digest, isDigest, isBytes⟩ := isOther
      refine .inr (.inl ⟨first, ?_, digest, isDigest, isBytes⟩)
      rwa [head?_eq_getElem?]
    cacheRosters := by
      intro cache given index digest found
      obtain ⟨cached, isCached, cacheHolds⟩ := holds.cached_holds given
      rw [← cacheHolds.rosterDigests] at found
      obtain ⟨side, isSide, rfl⟩ := mem_rosterSides.mpr
        ⟨(by omega : 1 ≤ index + 1), by simpa using found⟩
      have listed : side ∈
          prepared.marks.rosters.listAt (index + 1) := by
        rw [marked.rosters, mem_listAt_placed, isCached]
        exact mem_append_right _ isSide
      have onChain := met.roster marked listed (by omega)
      rw [rosterDigests]
      simpa using onChain
    cacheKeys := by
      intro cache given index key found
      obtain ⟨cached, isCached, cacheHolds⟩ := holds.cached_holds given
      have inCache : key ∈ cache.groupKeys := mem_of_getElem? found
      rw [← cacheHolds.groupKeys] at found
      have valid := cacheHolds.holds.keys key (mem_of_getElem? found)
      obtain ⟨digest, isDigest⟩ :=
        (exists_groupKeyDigest_iff (P := P)).mpr valid
      rcases marked.sides with ⟨_, uncached⟩ | ⟨before, isBefore, read⟩
      · simp [isCached] at uncached
      · rw [isCached, Option.mem_def, Option.some.injEq] at isBefore
        subst isBefore
        obtain ⟨side, isSide, rfl⟩ := (mem_keySides read).mpr
          ⟨(by omega : 1 ≤ index + 1), key, by simpa using found, isDigest⟩
        have listed : side ∈ prepared.marks.keys.listAt (index + 1) := by
          rw [marked.keys, mem_listAt_placed]
          exact mem_append_right _ isSide
        obtain ⟨onChain, isKey, same⟩ :=
          met.key holds kept marked listed (by omega)
        rw [Nat.add_sub_cancel, ← groupKeys] at isKey
        have equal := groupKey_eq_of_digest same isDigest (by
          intro message isMessage other isOther hashes
          refine apart ?_ ?_ hashes
          · exact .inr (.inr (.inl
              ⟨onChain, mem_of_getElem? isKey, isMessage⟩))
          · exact .inr (.inr (.inr
              ⟨cache, given, key, inCache, isOther⟩)))
        rw [isKey, equal]
    join := by
      intro mark given
      have shaped := checkJoinMark_eq_ok.mp (holds.own.joinShaped mark given)
      have isOwn : mark ∈ prepared.own.joinMark := by
        rw [holds.own.joinMark]
        exact given
      rw [rosterDigests, groupKeys, successions]
      exact exists_of_code shaped.2.2.1 shaped.2.2.2.1 joinable_of_joinCode
        valid_of_joinCode (met.join mark isOwn)
    pairs := by
      intro mark given
      have shaped := checkPairMark_eq_ok.mp (holds.own.pairShaped mark given)
      have isOwn : mark ∈ prepared.own.pairMarks := by
        rw [holds.own.pairMarks]
        exact given
      rw [rosterDigests, groupKeys, successions]
      exact exists_of_code shaped.2.1 shaped.2.2.2.1 joinable_of_pairCodeOf
        valid_of_pairCodeOf (met.pairs mark isOwn) }

def toyFirstBytes : Bytes :=
  List.replicate 32 (UInt8.ofNat 1) ++ List.replicate 32 (UInt8.ofNat 244)

def toyKeyBytes : Bytes :=
  List.replicate 32 (UInt8.ofNat 1) ++
    List.replicate ML_DSA_PUBLIC_KEY_BYTES (UInt8.ofNat 1)

theorem firstKeysBytes_toyKey :
    firstKeysBytes toyKey.ed25519PublicKey (bytesText 32 244) =
      some toyFirstBytes := by
  have isEd25519 : decode toyKey.ed25519PublicKey 32 =
      .ok (List.replicate 32 (UInt8.ofNat 1)) :=
    decode_bytesText (by decide)
  have isMlDsa : decode (bytesText 32 244) 32 =
      .ok (List.replicate 32 (UInt8.ofNat 244)) :=
    decode_bytesText (by decide)
  rw [firstKeysBytes, isEd25519, isMlDsa, toyFirstBytes]

theorem bytes_toyKey : toyKey.bytes = some toyKeyBytes := by
  have positive : 0 < ML_DSA_PUBLIC_KEY_BYTES := by decide
  have isEd25519 : decode toyKey.ed25519PublicKey 32 =
      .ok (List.replicate 32 (UInt8.ofNat 1)) :=
    decode_bytesText (by decide)
  have isMlDsa : decode toyKey.mlDsaPublicKey ML_DSA_PUBLIC_KEY_BYTES =
      .ok (List.replicate ML_DSA_PUBLIC_KEY_BYTES (UInt8.ofNat 1)) :=
    decode_bytesText positive
  rw [GroupPublicKey.bytes, isEd25519, isMlDsa, toyKeyBytes]

theorem digest_toyFirstBytes_ne
    {rosters : List Roster} :
    (toy rosters).digest toyFirstBytes ≠
      (toy rosters).digest toyKeyBytes := by
  have first : (toy rosters).digest toyFirstBytes = bytesText 32 8 := by
    rw [toy_digest_of_head (by decide)]
    rfl
  have key : (toy rosters).digest toyKeyBytes = bytesText 32 248 := by
    rw [toyKeyBytes, replicate_append_replicate,
      toy_digest_replicate (by decide)]
    rfl
  rw [first, key]
  decide

/-- The sample family passes through a pin at its second roster. -/
theorem sampleFamily_passesMarks :
    ∃ chain,
      (toy sampleFamily).acceptRosters
          (toyInput sampleGroup sampleReader [2] sampleFamily) =
        .ok (.accepted chain) ∧
      PassesMarks (toy sampleFamily)
        (toyInput sampleGroup sampleReader [2] sampleFamily) chain := by
  obtain ⟨chain, state, accepted, _, keys⟩ :=
    @ToyHistory.accepted _ sampleFamily_history sampleGroup (by decide)
      (by decide) sampleReader [2] (by decide)
  have answered := (toy sampleFamily).acceptRosters_eq_accepted.mpr
    ⟨state, accepted⟩
  refine ⟨chain, answered, Primitives.passesMarks ?_ answered⟩
  have groupKeys : chain.groupKeys = [toyKey] := by
    obtain ⟨_, _, _, _, _, _, _, _, isChain⟩ :=
      (toy sampleFamily).accept_eq_ok.mp accepted
    rw [isChain, ← keys]
    rfl
  have marked : ∀ message ∈ (toy sampleFamily).markedMessages
      (toyInput sampleGroup sampleReader [2] sampleFamily) chain,
      message = toyFirstBytes ∨ message = toyKeyBytes := by
    rintro message (⟨pin, member, isMessage⟩ |
      ⟨first, isFirst, digest, isDigest, isMessage⟩ |
      ⟨key, member, isMessage⟩ | ⟨cache, given, _⟩)
    · obtain ⟨version, _, rfl⟩ := mem_map.mp member
      simp only [toyPin, firstKeysBytes_toyKey,
        Option.some.injEq] at isMessage
      exact .inl isMessage.symm
    · rw [groupKeys, head?_cons, Option.mem_def,
        Option.some.injEq] at isFirst
      subst isFirst
      rw [mlDsaDigest_toyKey, Option.some.injEq] at isDigest
      subst isDigest
      rw [firstKeysBytes_toyKey, Option.some.injEq] at isMessage
      exact .inl isMessage.symm
    · rw [groupKeys, mem_singleton] at member
      subst member
      rw [bytes_toyKey, Option.some.injEq] at isMessage
      exact .inr isMessage.symm
    · simp [toyInput] at given
  intro first isFirst second isSecond same
  rcases marked first isFirst with rfl | rfl <;>
    rcases marked second isSecond with rfl | rfl
  · rfl
  · exact absurd (congrArg Base64url.encode same) digest_toyFirstBytes_ne
  · exact absurd (congrArg Base64url.encode same.symm)
      digest_toyFirstBytes_ne
  · rfl

end

end HushOS
