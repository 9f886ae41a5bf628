import HushOS.Worker.Committing

namespace HushOS

open Toolkit List OrderedMap

namespace Worker

/-!
# Group keys beside one another

A family of one roster whose group key was replaced along a line of keys, all
of the replacements tied to that roster, is accepted (`IsLine.accepted`).  Two
such lines hold the same rosters (`histories_agree`); where they meet again in
one key they are two histories, and the ledger commits one over the other
(`commits_beside`).
-/

/-- The first byte of a text of 32 bytes. -/
def firstByte (text : String) : Nat :=
  match decode text 32 with
  | .ok bytes => (bytes.headD 0).toNat
  | .error _ => 0

/--
What messages are hashed to: a succession's statement to the keys it names,
anything else as in a family of the one sample roster.
-/
def lineHash (message : Bytes) : Nat :=
  match parseGroupSuccession message with
  | .ok succession =>
    16 * firstByte succession.oldEd25519PublicKey +
      firstByte succession.newEd25519PublicKey
  | .error _ => toyHash [sampleFirst] message

def lineToy : Primitives := toyWith lineHash

/-- A toy group key, by its number. -/
def lineKey (number : Nat) : GroupPublicKey where
  ed25519PublicKey := bytesText 32 number
  mlDsaPublicKey := bytesText ML_DSA_PUBLIC_KEY_BYTES number

/-- The replacement of one toy key by another, tied to the sample roster. -/
def lineSuccession (version old new : Nat) : GroupKeySuccession where
  groupId := sampleGroup
  oldVersion := version
  newVersion := version + 1
  oldEd25519PublicKey := bytesText 32 old
  oldMlDsaPublicKey := bytesText ML_DSA_PUBLIC_KEY_BYTES old
  newEd25519PublicKey := bytesText 32 new
  newMlDsaPublicKey := bytesText ML_DSA_PUBLIC_KEY_BYTES new
  lastRosterVersion := 1
  lastRosterDigest := bytesText 32 1
  signerUserId := sampleOwner

/-- The replacements along a line of toy keys. -/
def lineSuccessions : Nat → Nat → List Nat → List GroupKeySuccession
  | _, _, [] => []
  | version, old, new :: rest =>
    lineSuccession version old new :: lineSuccessions (version + 1) new rest

/-- A succession as the server serves it. -/
def servedSuccession (succession : GroupKeySuccession) :
    SignedGroupStatement :=
  signedStatement succession.bytes

theorem created_ne_stored : some Anchor.created ≠ some .stored := by
  decide

/-- What a device gives acceptance of a line of toy keys. -/
def lineInput (keys : List Nat) : AcceptInput where
  groupId := sampleGroup
  firstKeys := lineKey 1
  pins := []
  rosters := [sampleFirst.signed]
  successions := (lineSuccessions 1 1 keys).map servedSuccession
  mlDsaKeys := toyMlDsaKeys
  anchor := some .created
  device := created_ne_stored
  me := sampleReader
  cache := none

theorem lineKey_valid (number : Nat) : (lineKey number).Valid where
  ed25519PublicKey := isBytesOf_bytesText (by decide)
  mlDsaPublicKey := isBytesOf_bytesText (by decide)

theorem lineKey_injective
    {first second : Nat}
    (firstSmall : first < 256)
    (secondSmall : second < 256)
    (same : lineKey first = lineKey second) :
    first = second := by
  have texts := congrArg GroupPublicKey.ed25519PublicKey same
  have bytes := Base64url.encode_injective texts
  rw [replicate_inj] at bytes
  have naturals := congrArg UInt8.toNat (bytes.2.resolve_left (by decide))
  rw [UInt8.toNat_ofNat', UInt8.toNat_ofNat'] at naturals
  omega

theorem lineSuccession_valid
    {version : Nat}
    (positive : 1 ≤ version)
    (safe : version < maxSafe)
    (old new : Nat) :
    (lineSuccession version old new).Valid where
  old_pos := positive
  new_eq := rfl
  new_le := safe
  groupId := (by decide : isUuid sampleGroup = true)
  oldEd25519PublicKey := isBytesOf_bytesText (by decide)
  oldMlDsaPublicKey := isBytesOf_bytesText (by decide)
  newEd25519PublicKey := isBytesOf_bytesText (by decide)
  newMlDsaPublicKey := isBytesOf_bytesText (by decide)
  tie_pos := le_rfl
  tie_le := (by decide : 1 ≤ maxSafe)
  lastRosterDigest := isBytesOf_bytesText (by decide)
  signerUserId := (by decide : isUuid sampleOwner = true)

variable {message : Bytes} {version old new : Nat} {keys : List Nat} {state : State}

theorem head?_of_parseGroupSuccession
    {succession : GroupKeySuccession}
    (read : parseGroupSuccession message = .ok succession) :
    message.head? = some 91 := by
  obtain ⟨valid, encoded⟩ :=
    groupSuccessionStatement_eq_ok.mp (parseGroupSuccession_eq_ok.mp read)
  obtain ⟨_, rfl, _⟩ := encodeStatement_eq_ok.mp encoded
  have opening : String.utf8EncodeChar '[' = [91] := by decide
  rw [Json.compact, Utf8.encode, flatMap_cons, opening]
  rfl

theorem lineToy_digest_eq
    (other : ∀ succession, parseGroupSuccession message ≠ .ok succession) :
    lineToy.digest message = (toy [sampleFirst]).digest message := by
  have isHash : lineHash message = toyHash [sampleFirst] message := by
    unfold lineHash
    split
    · next succession read =>
        exact absurd read (other succession)
    · rfl
  rw [lineToy, toyWith_digest, toy_digest_eq, isHash]

theorem lineToy_digest_of_head
    (other : message.head? ≠ some 91) :
    lineToy.digest message = bytesText 32 (message.length / 8) := by
  rw [lineToy_digest_eq, toy_digest_of_head other]
  intro succession read
  exact other (head?_of_parseGroupSuccession read)

theorem parseGroupSuccession_roster
    {roster : Roster}
    (valid : roster.Valid)
    (succession : GroupKeySuccession) :
    parseGroupSuccession roster.bytes ≠ .ok succession := by
  intro read
  have encoded := (groupSuccessionStatement_eq_ok.mp
    (parseGroupSuccession_eq_ok.mp read)).2
  have rosterEncoded :=
    (rosterStatement_eq_ok.mp (rosterStatement_of_valid valid)).2
  have parts := encodeStatement_injective encoded rosterEncoded
  simp only [GroupKeySuccession.parts, Roster.parts, List.cons.injEq,
    Json.Plain.text.injEq] at parts
  exact absurd parts.1 (by decide)

theorem sampleFirst_valid : sampleFirst.Valid :=
  sampleFamily_valid _ (by simp [sampleFamily])

theorem lineToy_digest_sampleFirst :
    lineToy.digest sampleFirst.bytes = bytesText 32 1 := by
  rw [lineToy_digest_eq (parseGroupSuccession_roster sampleFirst_valid)]
  exact toy_digest (by simpa using sampleFirst_valid) (by simp)
    (rfl : [sampleFirst][0]? = some sampleFirst)

theorem firstByte_bytesText
    {number : Nat}
    (small : number < 256) :
    firstByte (bytesText 32 number) = number := by
  have decoded := @decode_bytesText 32 number (by decide)
  rw [firstByte, decoded]
  show (UInt8.ofNat number).toNat = number
  rw [UInt8.toNat_ofNat']
  omega

theorem parse_lineSuccession
    {version : Nat}
    (positive : 1 ≤ version)
    (safe : version < maxSafe)
    (old new : Nat) :
    parseGroupSuccession (lineSuccession version old new).bytes =
      .ok (lineSuccession version old new) :=
  parseGroupSuccession_eq_ok.mpr
    (groupSuccessionStatement_of_valid
      (lineSuccession_valid positive safe old new))

theorem lineToy_digest_lineSuccession
    (positive : 1 ≤ version)
    (safe : version < maxSafe)
    (oldSmall : old < 16)
    (newSmall : new < 16) :
    lineToy.digest (lineSuccession version old new).bytes =
      bytesText 32 (16 * old + new) := by
  rw [lineToy, toyWith_digest, lineHash, parse_lineSuccession positive safe]
  show bytesText 32 (16 * firstByte (bytesText 32 old) +
    firstByte (bytesText 32 new)) = _
  rw [firstByte_bytesText (by omega), firstByte_bytesText (by omega)]

/-- The succession a served statement holds, a default for anything else. -/
def successionOf (copy : SignedGroupStatement) : GroupKeySuccession :=
  match parseGroupSuccession copy.statement with
  | .ok succession => succession
  | .error _ => lineSuccession 1 1 1

/-- A toy succession as acceptance groups it. -/
def lineServed (succession : GroupKeySuccession) :
    Served GroupKeySuccession :=
  lineToy.servedOnce (fun _ => succession) (servedSuccession succession)

@[simp] theorem oldVersion_lineServed (version old new : Nat) :
    (lineServed (lineSuccession version old new)).value.oldVersion =
      version :=
  rfl

@[simp] theorem newKey_lineServed (version old new : Nat) :
    (lineServed (lineSuccession version old new)).value.newKey =
      lineKey new :=
  rfl

/-- The sample roster as acceptance holds it. -/
def lineHeld : Held :=
  heldAfter none (lineToy.servedOnce (fun _ => sampleFirst) sampleFirst.signed)

/-- A line's successions each go from one key to the next. -/
theorem mem_lineSuccessions
    {version old : Nat}
    {succession : GroupKeySuccession}
    (member : succession ∈ lineSuccessions version old keys) :
    ∃ before new later,
      succession = lineSuccession before new later ∧ version ≤ before ∧
        before < version + keys.length ∧ new ∈ old :: keys ∧
        later ∈ keys := by
  induction keys generalizing version old with
  | nil =>
    simp [lineSuccessions] at member
  | cons next rest inductionHypothesis =>
    rw [lineSuccessions, mem_cons] at member
    rcases member with rfl | inRest
    · exact ⟨version, old, next, rfl, le_rfl, by simp, by simp, by simp⟩
    · obtain ⟨before, new, later, rfl, above, below, isNew, isLater⟩ :=
        inductionHypothesis inRest
      refine ⟨before, new, later, rfl, by omega, ?_, ?_, ?_⟩
      · rw [length_cons]
        omega
      · exact mem_cons_of_mem _ isNew
      · exact mem_cons_of_mem _ isLater

theorem lineToy_signed
    (message statement : Bytes)
    (number : Nat) :
    lineToy.verifyGroup message (signedStatement statement).signature
        (lineKey number) = true ∧
      lineToy.signedByMember sampleFirst sampleOwner
        (signedStatement statement) toyMlDsaKeys = true := by
  refine ⟨toyWith_verifyGroup (lineKey_valid number) _ _, ?_⟩
  have found : rosterEntry sampleFirst sampleOwner =
      some (toyEntry sampleOwner 1 .active [.members] 1) := by
    decide
  refine toyWith_signedByMember ?_ found rfl (isBytesOf_bytesText (by decide))
    statement
  show lineToy.digest
    (List.replicate ML_DSA_PUBLIC_KEY_BYTES (UInt8.ofNat 0)) = _
  rw [lineToy_digest_of_head (by decide), length_replicate]
  rfl

/-- Where a state stands on a line of keys still to be taken. -/
structure OnLine
    (state : State)
    (version old : Nat)
    (keys : List Nat) : Prop where
  groupId : state.groupId = sampleGroup
  mlDsaKeys : state.mlDsaKeys = toyMlDsaKeys
  keyMarks : state.keyMarks = .empty
  held : state.held = [lineHeld]
  length : state.keys.length = version
  positive : 1 ≤ version
  last : state.keys[version - 1]? = some (lineKey old)
  new : ∀ number ∈ keys, lineKey number ∉ state.keys
  tied : ∀ verified ∈ state.verified, verified.lastRosterVersion = 1
  candidates : ∀ later, version ≤ later →
    state.candidates.listAt later =
      ((lineSuccessions version old keys).map lineServed).filter
        fun served => served.value.oldVersion = later

/-- The next succession of a line keeps the rules. -/
theorem OnLine.succession
    (onLine : OnLine state version old (new :: keys)) :
    SuccessionHolds lineToy state (lineServed (lineSuccession version old new))
      version where
  groupId := onLine.groupId.symm
  replaces := onLine.last
  new := onLine.new new (by simp)
  tied := by
    have signed := lineToy_signed (lineSuccession version old new).bytes
      (lineSuccession version old new).bytes old
    refine ⟨lineHeld, ?_, ?_, ?_, servedSuccession _,
      mem_singleton_self _, signed.1, ?_⟩
    · rw [onLine.held]
      rfl
    · exact lineToy_digest_sampleFirst
    · show activeWith (rosterEntry sampleFirst sampleOwner) .members = true
      decide
    · rw [onLine.mlDsaKeys]
      exact signed.2
  ordered := by
    intro into given
    have inVerified : into ∈ state.verified := by
      unfold State.verifiedAt at given
      split at given
      · simp at given
      · exact mem_of_getElem? given
    rw [onLine.tied into inVerified]
    exact le_rfl

theorem OnLine.current
    (onLine : OnLine state version old (new :: keys)) :
    state.current = [lineServed (lineSuccession version old new)] := by
  have later : ((lineSuccessions (version + 1) new keys).map
      lineServed).filter (fun served => served.value.oldVersion = version) =
        [] := by
    rw [filter_eq_nil_iff]
    intro served member
    obtain ⟨succession, inLine, rfl⟩ := mem_map.mp member
    obtain ⟨before, _, _, rfl, above, _⟩ := mem_lineSuccessions inLine
    rw [decide_eq_true_eq, oldVersion_lineServed]
    omega
  have listed := onLine.candidates version le_rfl
  rw [State.current, onLine.length]
  rw [lineSuccessions, map_cons, filter_cons, later,
    if_pos (by simp)] at listed
  rw [listed]
  rfl

/-- Taking a line's next succession stays on the line. -/
theorem OnLine.take
    {state : State}
    {version old new : Nat}
    {keys : List Nat}
    (onLine : OnLine state version old (new :: keys))
    (small : ∀ number ∈ new :: keys, number < 256)
    (distinct : (new :: keys).Nodup) :
    OnLine (state.take (lineServed (lineSuccession version old new)))
      (version + 1) new keys where
  groupId := onLine.groupId
  mlDsaKeys := onLine.mlDsaKeys
  keyMarks := onLine.keyMarks
  held := onLine.held
  length := by simp [State.take, onLine.length]
  positive := by omega
  last := by
    have isLength := onLine.length
    simp only [State.take, newKey_lineServed]
    rw [Nat.add_sub_cancel, ← isLength, getElem?_concat_length]
  new := by
    intro number member inKeys
    simp only [State.take, mem_append, mem_singleton,
      newKey_lineServed] at inKeys
    rcases inKeys with before | same
    · exact onLine.new number (by simp [member]) before
    · have equal := lineKey_injective (small number (by simp [member]))
        (small new (by simp)) same
      exact (nodup_cons.mp distinct).1 (equal ▸ member)
  tied := by
    intro verified member
    simp only [State.take, mem_append, mem_singleton] at member
    rcases member with before | rfl
    · exact onLine.tied verified before
    · rfl
  candidates := by
    intro later above
    have listed := onLine.candidates later (by omega)
    rw [lineSuccessions, map_cons, filter_cons, if_neg] at listed
    · exact listed
    · rw [decide_eq_true_eq, oldVersion_lineServed]
      omega

/-- A line passes to its last key. -/
theorem OnLine.passes
    {keys : List Nat}
    {state : State}
    {version old : Nat}
    (onLine : OnLine state version old keys)
    (small : ∀ number ∈ keys, number < 256)
    (distinct : keys.Nodup) :
    ∃ after, lineToy.Passes state [] after ∧
      after.keys = state.keys ++ keys.map lineKey ∧
      after.held = state.held ∧ after.keyMarks = .empty := by
  induction keys generalizing state version old with
  | nil =>
    have nothing : lineToy.Settled state := by
      intro served member
      have listed := mem_candidates_of_current member
      rw [onLine.candidates _ onLine.length.ge] at listed
      simp [lineSuccessions] at listed
    exact ⟨state, .settled nothing, by simp, rfl, onLine.keyMarks⟩
  | cons new rest inductionHypothesis =>
    obtain ⟨after, passes, keys, held, keyMarks⟩ :=
      inductionHypothesis (onLine.take small distinct)
        (fun number member => small number (by simp [member]))
        (nodup_cons.mp distinct).2
    have holds := lineToy.isAdmissible_iff.mpr onLine.succession
    have eligible :
        lineToy.eligible state
          (lineServed (lineSuccession version old new)) = true := by
      rw [Primitives.eligible, onLine.length, holds, onLine.keyMarks]
      rfl
    refine ⟨after, .take _ ?_ ?_ passes, ?_, held, keyMarks⟩
    · rw [onLine.current, find?_cons, eligible]
    · intro _
      rw [onLine.current]
      exact length_filter_le _ _
    · rw [keys, map_cons]
      simp only [State.take, append_assoc, singleton_append]
      rfl

/-- A line of keys that acceptance can take: short, and each key once. -/
structure IsLine (keys : List Nat) : Prop where
  few : keys.length < 256
  small : ∀ number ∈ 1 :: keys, number < 16
  distinct : (1 :: keys).Nodup

/-- The successions of a line have distinct digests. -/
theorem nodup_digest_lineSuccessions
    {version old : Nat}
    (positive : 1 ≤ version)
    (safe : version + keys.length ≤ maxSafe)
    (small : ∀ number ∈ old :: keys, number < 16)
    (distinct : (old :: keys).Nodup) :
    ((lineSuccessions version old keys).map fun succession =>
      lineToy.digest succession.bytes).Nodup := by
  induction keys generalizing version old with
  | nil =>
    simp [lineSuccessions]
  | cons new rest inductionHypothesis =>
    rw [length_cons] at safe
    obtain ⟨oldNew, restDistinct⟩ := nodup_cons.mp distinct
    rw [lineSuccessions, map_cons, nodup_cons]
    refine ⟨?_, inductionHypothesis (by omega) (by omega)
      (fun number member => small number (by simp [member]))
      restDistinct⟩
    intro member
    obtain ⟨succession, inLine, same⟩ := mem_map.mp member
    obtain ⟨before, other, later, rfl, above, below, isOther, isLater⟩ :=
      mem_lineSuccessions inLine
    have oldSmall := small old (by simp)
    have newSmall := small new (by simp)
    have otherSmall := small other (mem_cons_of_mem _ isOther)
    have laterSmall := small later (by simp [isLater])
    rw [lineToy_digest_lineSuccession (by omega) (by omega) otherSmall
        laterSmall,
      lineToy_digest_lineSuccession positive (by omega) oldSmall newSmall]
      at same
    have bytes := Base64url.encode_injective same
    rw [replicate_inj] at bytes
    have naturals :=
      congrArg UInt8.toNat (bytes.2.resolve_left (by decide))
    rw [UInt8.toNat_ofNat', UInt8.toNat_ofNat'] at naturals
    have equal : old = other := by omega
    exact oldNew (equal ▸ isOther)

/-- What the acceptance of a line of keys is prepared as. -/
def linePrepared
    (rosters : OrderedMap String (Served Roster))
    (successions : OrderedMap String (Served GroupKeySuccession)) :
    Prepared where
  own := { cached := none, joinMark := none, pairMarks := [] }
  marks := .none
  rosters := rosters
  successions := successions
  line :=
    { extending := none
      bottom := 0
      head := 1
      path := [lineToy.servedOnce (fun _ => sampleFirst) sampleFirst.signed] }

/-- A line's statements are prepared. -/
theorem IsLine.prepared
    (isLine : IsLine keys) :
    ∃ rosters successions,
      PreparedHolds lineToy (lineInput keys).accepting
        (linePrepared rosters successions) ∧
      successions.values = (lineSuccessions 1 1 keys).map lineServed := by
  have few := isLine.few
  have large : 257 ≤ maxSafe := by decide
  have successive :
      Successive lineToy sampleGroup 0 (fun _ => sampleFirst)
        [sampleFirst.signed] := {
    reads := by
      intro copy member
      rw [mem_singleton.mp member]
      exact parseRoster_bytes sampleFirst_valid
    ofGroup := fun _ _ => rfl
    versions := by
      intro index copy found
      have first := (List.getElem?_eq_some_iff.mp found).1
      rw [length_singleton] at first
      rw [Nat.lt_one_iff.mp first]
      rfl
    named := by simp
    distinct := by simp }
  obtain ⟨rosters, collected, values, line⟩ :=
    @Successive.line lineToy sampleGroup none (fun _ => sampleFirst)
      [sampleFirst.signed] successive (by simp) (by decide)
  have reads :
      ∀ copy ∈ (lineSuccessions 1 1 keys).map servedSuccession,
        parseGroupSuccession copy.statement = .ok (successionOf copy) ∧
          servedSuccession (successionOf copy) = copy := by
    intro copy member
    obtain ⟨succession, inLine, rfl⟩ := mem_map.mp member
    obtain ⟨before, old, new, rfl, above, below, _⟩ :=
      mem_lineSuccessions inLine
    have read : parseGroupSuccession
        (servedSuccession (lineSuccession before old new)).statement =
          .ok (lineSuccession before old new) :=
      parse_lineSuccession above (by omega) old new
    rw [successionOf, read]
    exact ⟨rfl, rfl⟩
  obtain ⟨successions, grouped, entries⟩ :=
    @Primitives.byDigest_of_distinct _ lineToy parseGroupSuccession
      ((lineSuccessions 1 1 keys).map servedSuccession) successionOf
      (fun copy member => (reads copy member).1)
      (by
        rw [map_map]
        exact nodup_digest_lineSuccessions le_rfl (by omega) isLine.small
          isLine.distinct)
  refine ⟨rosters, successions, ?_, ?_⟩
  · exact {
      own := {
        groupId := (by decide : isUuid sampleGroup = true)
        pins := by simp [lineInput, AcceptInput.accepting]
        cached := rfl
        joinMark := rfl
        joinShaped := by simp [lineInput, AcceptInput.accepting]
        pairMarks := rfl
        pairShaped := by simp [lineInput, AcceptInput.accepting]
        joinAnchor := by simp [lineInput, AcceptInput.accepting]
        joinOnly := by simp [lineInput, AcceptInput.accepting]
        reader := by simp [lineInput, AcceptInput.accepting] }
      marks := rfl
      agreed := rfl
      rosters := collected
      sameGroup := by
        intro served member
        have inValues : served ∈ rosters.values := member
        rw [values] at inValues
        obtain ⟨copy, _, rfl⟩ := mem_map.mp inValues
        rfl
      successions := grouped
      firstKeys := rfl
      line := line }
  · rw [OrderedMap.values, entries, map_map, map_map]
    refine map_congr_left ?_
    intro succession member
    obtain ⟨before, old, new, rfl, above, below, _⟩ :=
      mem_lineSuccessions member
    have read : parseGroupSuccession
        (servedSuccession (lineSuccession before old new)).statement =
          .ok (lineSuccession before old new) :=
      parse_lineSuccession above (by omega) old new
    simp only [Function.comp_apply, successionOf, read]
    rfl

/-- The line's one roster keeps the rules. -/
theorem lineHolds
    (groupKeys : state.keys = [lineKey 1])
    (mlDsaKeys : state.mlDsaKeys = toyMlDsaKeys)
    (verified : state.verified = [])
    (areas : state.areas = .empty) :
    RosterHolds lineToy state sampleFirst sampleFirst.bytes
      (some [sampleFirst.signed]) none where
  kind := by simp
  reached := by
    rw [groupKeys]
    exact le_rfl
  current := by simp [State.verifiedAt, verified]
  holder := by decide
  stays := by decide
  keeps := by decide
  signed := by
    intro copies isCopies
    rw [Option.mem_def, Option.some.injEq] at isCopies
    subst isCopies
    have signed := lineToy_signed sampleFirst.bytes sampleFirst.bytes 1
    refine ⟨_, mem_singleton_self _, ⟨lineKey 1, ?_, signed.1⟩, ?_⟩
    · rw [groupKeys]
      rfl
    · rw [mlDsaKeys]
      exact signed.2
  due := by simp
  entries := by simp
  areas := by
    obtain ⟨_, _, _, _, _, _, _, follows, _⟩ := sampleFamily_history.ruled
    rw [areas]
    exact checkAreas_eq_ok.mp follows

/-- A line is accepted with its keys in order. -/
theorem IsLine.accepted
    {keys : List Nat}
    (isLine : IsLine keys) :
    ∃ chain state,
      lineToy.accept (lineInput keys).accepting = .ok (chain, state) ∧
        chain.groupId = sampleGroup ∧ chain.roster = sampleFirst ∧
        chain.statement = sampleFirst.bytes ∧
        chain.rosterDigest = bytesText 32 1 ∧
        chain.rosterDigests = [bytesText 32 1] ∧
        chain.groupKeys = (1 :: keys).map lineKey ∧
        chain.groupKey = ((1 :: keys).map lineKey).getLastD ⟨"", ""⟩ ∧
        chain.groupKeyVersion = keys.length + 1 := by
  obtain ⟨rosters, successions, holds, values⟩ := isLine.prepared
  have small : ∀ number ∈ keys, number < 256 := by
    intro number member
    have isSmall := isLine.small number (by simp [member])
    omega
  obtain ⟨oneNew, distinct⟩ := nodup_cons.mp isLine.distinct
  let start := startState (lineInput keys).accepting
    (linePrepared rosters successions)
  have candidates (version : Nat) :
      start.candidates.listAt version =
        ((lineSuccessions 1 1 keys).map lineServed).filter
          fun served => served.value.oldVersion = version := by
    show (successions.values.foldl addCandidate .empty).listAt version = _
    rw [values]
    exact listAt_candidates _ version
  have nothing : lineToy.Settled start := by
    intro served member
    by_contra eligible
    rw [Bool.not_eq_false, Primitives.eligible, Bool.and_eq_true] at eligible
    obtain ⟨last, found, _⟩ :=
      (lineToy.isAdmissible_iff.mp eligible.1).tied
    have empty : start.held = [] := rfl
    simp [empty] at found
  have onLine : OnLine (start.hold
      (lineToy.servedOnce (fun _ => sampleFirst) sampleFirst.signed)) 1 1
        keys := {
    groupId := rfl
    mlDsaKeys := rfl
    keyMarks := rfl
    held := rfl
    length := rfl
    positive := le_rfl
    last := rfl
    new := by
      intro number member inKeys
      have isKeys : number ∈ keys ∧ lineKey number ∈ [lineKey 1] :=
        ⟨member, inKeys⟩
      have same := lineKey_injective (small number member) (by decide)
        (mem_singleton.mp isKeys.2)
      exact oneNew (same ▸ member)
    tied := by
      intro verified member
      have isEmpty : verified ∈ ([] : List Verified) := member
      simp at isEmpty
    candidates := fun later _ => candidates later }
  obtain ⟨after, passed, isKeys, isHeld, keyMarks⟩ :=
    onLine.passes small distinct
  have passes :
      lineToy.Passes start (linePrepared rosters successions).line.path
        after :=
    .hold _ nothing (lineHolds rfl rfl rfl rfl) passed
  have held : after.held = [lineHeld] := isHeld
  have groupKeys : after.keys = (1 :: keys).map lineKey := isKeys
  have met : MarksMet lineToy (lineInput keys).accepting
      (linePrepared rosters successions) after := {
    rosters := by simp [linePrepared, Marks.none]
    join := by simp [linePrepared]
    pairs := by simp [linePrepared]
    letIn := by simp [firstUse, lineInput, AcceptInput.accepting]
    keys := by simp [keyMarks] }
  have isLatest : after.held.getLast? = some lineHeld := by
    rw [held]
    rfl
  obtain ⟨refused, waiting, digest, _, accepted⟩ :=
    (Continues.first holds rfl).accept holds passes met isLatest
  refine ⟨_, _, accepted, rfl, rfl, rfl, lineToy_digest_sampleFirst, ?_,
    groupKeys, ?_, ?_⟩
  · show [lineToy.digest sampleFirst.bytes] = _
    rw [lineToy_digest_sampleFirst]
  · show after.keys.getLastD ⟨"", ""⟩ = _
    rw [groupKeys]
  · show after.keys.length = _
    rw [groupKeys]
    simp

def toyTag (key nonce aad : Bytes) : Bytes :=
  List.replicate CHUNK_TAG_BYTES ((key ++ nonce ++ aad).foldl (· + ·) 0)

def toyVault (P : Primitives) : Vault where
  toPrimitives := P
  encrypt plaintext key nonce aad := plaintext ++ toyTag key nonce aad
  decrypt ciphertext key nonce aad :=
    let length := ciphertext.length - CHUNK_TAG_BYTES
    if ciphertext.drop length = toyTag key nonce aad then
      some (ciphertext.take length)
    else
      none

/-- The worker's libraries over a line of toy keys. -/
def lineVault : Vault := toyVault lineToy

/-- A chain accepted of a line of toy keys. -/
structure OfLine
    (keys : List Nat)
    (chain : Accepted lineVault.toPrimitives) : Prop where
  groupId : chain.val.groupId = sampleGroup
  roster : chain.val.roster = sampleFirst
  digest : chain.val.rosterDigest = bytesText 32 1
  digests : chain.val.rosterDigests = [bytesText 32 1]
  groupKeys : chain.val.groupKeys = (1 :: keys).map lineKey
  groupKey :
    chain.val.groupKey = ((1 :: keys).map lineKey).getLastD ⟨"", ""⟩
  keyVersion : chain.val.groupKeyVersion = keys.length + 1
  statements : chain.statements ⊆ {sampleFirst.bytes}

theorem IsLine.exists_chain
    {keys : List Nat}
    (isLine : IsLine keys) :
    ∃ chain, OfLine keys chain := by
  obtain ⟨chain, state, accepted, groupId, roster, statement, digest, digests,
    groupKeys, groupKey, keyVersion⟩ := isLine.accepted
  refine ⟨⟨chain, _, .first rfl accepted⟩, groupId, roster, digest, digests,
    groupKeys, groupKey, keyVersion, ?_⟩
  rintro found ⟨history, isHistory, held, member, rfl⟩
  have standing := isHistory.standing
  have lengths := congrArg List.length standing.digests
  rw [digests, length_map, length_singleton] at lengths
  obtain ⟨one, rfl⟩ := length_eq_one_iff.mp lengths
  have isLatest := standing.latest
  rw [getLast?_singleton, Option.some.injEq] at isLatest
  rw [mem_singleton.mp member, isLatest]
  exact statement

theorem OfLine.overtakenBy
    {before after : List Nat}
    {held chain : Accepted lineVault.toPrimitives}
    (isHeld : OfLine before held)
    (isChain : OfLine after chain)
    (longer : before.length ≤ after.length)
    (through : ((1 :: after).map lineKey)[before.length]? =
      some (((1 :: before).map lineKey).getLastD ⟨"", ""⟩)) :
    overtakenBy held chain = none := by
  rw [overtakenBy_eq_none, isHeld.roster, isChain.roster, isHeld.digest,
    isChain.digests, isHeld.keyVersion, isChain.keyVersion, isHeld.groupKey,
    isChain.groupKeys, Nat.add_sub_cancel]
  exact ⟨le_rfl, rfl, by omega, through⟩

/--
Where two accepted chains list one digest at one version, whoever accepted
them, from whatever was served and whatever caches: they hold the same rosters
up to it, of one family and one creator, or two statements on them collide.
-/
theorem histories_agree
    {P : Primitives}
    {first second : ChainBody}
    {history other : List Held}
    (isFirst : P.History first history)
    (isSecond : P.History second other)
    {index : Nat}
    {digest : String}
    (listed : first.rosterDigests[index]? = some digest)
    (alsoListed : second.rosterDigests[index]? = some digest) :
    ((history.take (index + 1)).map Held.roster =
        (other.take (index + 1)).map Held.roster ∧
      first.rosterDigests.take (index + 1) =
        second.rosterDigests.take (index + 1) ∧
      first.groupId = second.groupId ∧
      first.creatorUserId = second.creatorUserId) ∨
    ∃ held ∈ history ++ other, ∃ met ∈ history ++ other,
      held.statement ≠ met.statement ∧
        P.sha256 held.statement = P.sha256 met.statement := by
  by_cases apart : Set.InjOn P.sha256
      { statement | ∃ held ∈ history ++ other, held.statement = statement }
  · left
    have one := isFirst.standing
    have two := isSecond.standing
    rw [← one.digests, getElem?_map, Option.map_eq_some_iff] at listed
    rw [← two.digests, getElem?_map, Option.map_eq_some_iff] at alsoListed
    obtain ⟨held, isHeld, rfl⟩ := listed
    obtain ⟨met, isMet, same⟩ := alsoListed
    have agree := Recorded.rosters_eq one.recorded two.recorded apart
      (fun held member => ⟨held, mem_append_left _ member, rfl⟩)
      (fun met member => ⟨met, mem_append_right _ member, rfl⟩)
      isHeld isMet same.symm
    have rosters := congrArg (List.map Prod.fst) agree
    have digests := congrArg (List.map Prod.snd) agree
    rw [map_map, map_map] at rosters digests
    cases history with
    | nil => simp at isHeld
    | cons founding rest =>
      cases other with
      | nil => simp at isMet
      | cons otherFounding otherRest =>
        have begin_ : founding.roster = otherFounding.roster := by
          simpa using congrArg List.head? rosters
        have ofGroup := one.recorded.ofGroup founding (by simp)
        have ofOther := two.recorded.ofGroup otherFounding (by simp)
        have creator := one.creator
        rw [head?_cons, Option.map_some, begin_] at creator
        refine ⟨rosters, ?_, ?_, ?_⟩
        · rw [← one.digests, ← two.digests, ← map_take,
            ← map_take]
          exact digests
        · rw [← ofGroup, ← ofOther, begin_]
        · exact Option.some.inj (creator.symm.trans two.creator)
  · right
    simp only [Set.InjOn, Set.mem_ofPred_eq, not_forall] at apart
    obtain ⟨_, ⟨held, isHeld, rfl⟩, _, ⟨met, isMet, rfl⟩, collides, differ⟩ :=
      apart
    exact ⟨held, isHeld, met, isMet, differ, collides⟩

/-- Two chains of one roster, under the keys 1, 2, 3 and under 1, 4. -/
theorem histories_agree_forked :
    ∃ first history second other,
      lineToy.History first history ∧ lineToy.History second other ∧
      first.groupKeys = [lineKey 1, lineKey 2, lineKey 3] ∧
      second.groupKeys = [lineKey 1, lineKey 4] ∧
      (((history.take 1).map Held.roster = (other.take 1).map Held.roster ∧
        first.rosterDigests.take 1 = second.rosterDigests.take 1 ∧
        first.groupId = second.groupId ∧
        first.creatorUserId = second.creatorUserId) ∨
      ∃ held ∈ history ++ other, ∃ met ∈ history ++ other,
        held.statement ≠ met.statement ∧
          lineToy.sha256 held.statement = lineToy.sha256 met.statement) := by
  obtain ⟨⟨first, history, isFirst⟩, ofFirst⟩ := @IsLine.exists_chain [2, 3]
    ⟨by decide, by decide, by decide⟩
  obtain ⟨⟨second, other, isSecond⟩, ofSecond⟩ := @IsLine.exists_chain [4]
    ⟨by decide, by decide, by decide⟩
  exact ⟨first, history, second, other, isFirst, isSecond,
    ofFirst.groupKeys, ofSecond.groupKeys,
    histories_agree isFirst isSecond (by rw [ofFirst.digests]; rfl)
      (by rw [ofSecond.digests]; rfl)⟩

theorem injOn_statementsOf
    {chains : List (Accepted lineVault.toPrimitives)}
    (ofLine : ∀ chain ∈ chains, ∃ keys, OfLine keys chain)
    {ops : List (Op lineVault)}
    (given : ∀ chain, Op.commit chain ∈ ops → chain ∈ chains) :
    Set.InjOn lineVault.sha256 (statementsOf sampleGroup ops) := by
  have only : statementsOf sampleGroup ops ⊆ {sampleFirst.bytes} := by
    rintro statement ⟨chain, member, _, stated⟩
    obtain ⟨keys, isLine⟩ := ofLine chain (given chain member)
    exact isLine.statements stated
  exact (Set.injOn_singleton _ _).mono only

namespace Ledger

/-- What a family holds: one chain committed, and it is the floor too. -/
structure HoldsOnly
    (chain : Accepted lineVault.toPrimitives)
    (ledger : Ledger lineVault) : Prop where
  floor : ledger.floors.get? sampleGroup = some chain
  chain : ledger.chains.get? sampleGroup = some chain

/-- A line beyond floor and held chain is committed. -/
theorem step_commit_line
    {keys : List Nat}
    {chain : Accepted lineVault.toPrimitives}
    (ofLine : OfLine keys chain)
    {ledger : Ledger lineVault}
    (throughFloor : ∀ held ∈ ledger.floors.get? sampleGroup,
      overtakenBy held chain = none)
    (throughChain : ∀ held ∈ ledger.chains.get? sampleGroup,
      overtakenBy held chain = none) :
    ledger.commits sampleGroup (.commit chain) = [chain] ∧
      (ledger.step (.commit chain)).chains.get? sampleGroup = some chain ∧
      (ledger.step (.commit chain)).floors.get? sampleGroup =
        if movesFloor (ledger.floors.get? sampleGroup) chain then
          some chain
        else
          ledger.floors.get? sampleGroup := by
  rw [← ofLine.groupId] at throughFloor throughChain
  obtain ⟨after, committed⟩ := exists_commit throughFloor throughChain
  obtain ⟨_, chains, floors⟩ := commit_eq_ok committed
  have stepped : ledger.step (.commit chain) = after := by
    simp [Ledger.step, committed]
  rw [ofLine.groupId] at chains floors
  refine ⟨by simp [commits, committed, ofLine.groupId], ?_, ?_⟩
  · rw [stepped, chains, get?_set, if_pos rfl]
  · rw [stepped, floors]
    split
    · rw [get?_set, if_pos rfl]
    · rfl

theorem step_commit_first
    {keys : List Nat}
    {chain : Accepted lineVault.toPrimitives}
    (ofLine : OfLine keys chain) :
    (createAreaLedger lineVault).commits sampleGroup (.commit chain) =
        [chain] ∧
      HoldsOnly chain
        ((createAreaLedger lineVault).step (.commit chain)) := by
  obtain ⟨commits, chains, floors⟩ :=
    @step_commit_line _ _ ofLine (createAreaLedger lineVault)
      (by simp [createAreaLedger, get?_empty])
      (by simp [createAreaLedger, get?_empty])
  exact ⟨commits, floors, chains⟩

/-- A longer line through the held key is committed. -/
theorem step_commit_longer
    {before after : List Nat}
    {held chain : Accepted lineVault.toPrimitives}
    (isHeld : OfLine before held)
    (isChain : OfLine after chain)
    (longer : before.length < after.length)
    (through : ((1 :: after).map lineKey)[before.length]? =
      some (((1 :: before).map lineKey).getLastD ⟨"", ""⟩))
    {ledger : Ledger lineVault}
    (holdsOnly : HoldsOnly held ledger) :
    ledger.commits sampleGroup (.commit chain) = [chain] ∧
      HoldsOnly chain (ledger.step (.commit chain)) := by
  have goesOn := isHeld.overtakenBy isChain longer.le through
  obtain ⟨commits, chains, floors⟩ :=
    @step_commit_line _ _ isChain ledger
      (by simpa [holdsOnly.floor] using goesOn)
      (by simpa [holdsOnly.chain] using goesOn)
  refine ⟨commits, ?_, chains⟩
  rw [floors, if_pos]
  simp only [movesFloor, holdsOnly.floor, Option.all_some, isHeld.roster,
    isChain.roster, isHeld.keyVersion, isChain.keyVersion]
  simp [longer]

/--
A chain under the keys 1, 4, 3 is committed over one under 1, 2, 3, though the
one committed before that stood at key 2: the three are not one history.
-/
theorem commits_beside :
    ∃ first second third : Accepted lineVault.toPrimitives,
      let ops : List (Op lineVault) :=
        [.commit first, .commit second, .commit third]
      Set.InjOn lineVault.sha256 (statementsOf sampleGroup ops) ∧
        committed sampleGroup (createAreaLedger lineVault) ops =
          [first, second, third] ∧
        third.val.groupKeys[first.val.groupKeyVersion - 1]? ≠
          some first.val.groupKey ∧
        ¬ OneHistory sampleGroup (createAreaLedger lineVault) ops := by
  obtain ⟨first, isFirst⟩ := @IsLine.exists_chain [2]
    ⟨by decide, by decide, by decide⟩
  obtain ⟨second, isSecond⟩ := @IsLine.exists_chain [2, 3]
    ⟨by decide, by decide, by decide⟩
  obtain ⟨third, isThird⟩ := @IsLine.exists_chain [4, 3]
    ⟨by decide, by decide, by decide⟩
  have otherKey :
      third.val.groupKeys[first.val.groupKeyVersion - 1]? ≠
        some first.val.groupKey := by
    rw [isThird.groupKeys, isFirst.keyVersion, isFirst.groupKey]
    intro same
    have keys : lineKey 4 = lineKey 2 := Option.some.inj same
    exact absurd (lineKey_injective (by decide) (by decide) keys) (by decide)
  obtain ⟨firstCommits, firstHolds⟩ := step_commit_first isFirst
  obtain ⟨secondCommits, secondHolds⟩ :=
    step_commit_longer isFirst isSecond (by decide) rfl firstHolds
  have goesOn := isSecond.overtakenBy isThird le_rfl rfl
  have thirdCommits := (step_commit_line isThird
    (by
      intro held isFloor
      rw [secondHolds.floor, Option.mem_def, Option.some.injEq] at isFloor
      exact isFloor ▸ goesOn)
    (by
      intro held isChain
      rw [secondHolds.chain, Option.mem_def, Option.some.injEq] at isChain
      exact isChain ▸ goesOn)).1
  have all : committed sampleGroup (createAreaLedger lineVault)
      [.commit first, .commit second, .commit third] =
        [first, second, third] := by
    simp only [committed, firstCommits, secondCommits, thirdCommits]
    rfl
  refine ⟨first, second, third, ?_, all, otherKey, ?_⟩
  · refine @injOn_statementsOf [first, second, third] ?_ _ (by simp)
    intro chain member
    simp only [mem_cons, not_mem_nil, or_false] at member
    rcases member with rfl | rfl | rfl
    · exact ⟨_, isFirst⟩
    · exact ⟨_, isSecond⟩
    · exact ⟨_, isThird⟩
  · intro history
    have follows := history.follows
    rw [all] at follows
    exact otherKey ((pairwise_cons.mp follows).1 third (by simp)).key

/-- A chain withdrawn and a later one committed are one history. -/
theorem oneHistory_withdrawn :
    ∃ first second : Accepted lineVault.toPrimitives,
      let ops : List (Op lineVault) :=
        [.commit first, .uncommit sampleGroup, .commit second]
      first.val.groupKeys = [lineKey 1, lineKey 2] ∧
        second.val.groupKeys = [lineKey 1, lineKey 2, lineKey 3] ∧
        OneHistory sampleGroup (createAreaLedger lineVault) ops := by
  obtain ⟨first, isFirst⟩ := @IsLine.exists_chain [2]
    ⟨by decide, by decide, by decide⟩
  obtain ⟨second, isSecond⟩ := @IsLine.exists_chain [2, 3]
    ⟨by decide, by decide, by decide⟩
  obtain ⟨_, firstHolds⟩ := step_commit_first isFirst
  refine ⟨first, second, isFirst.groupKeys, isSecond.groupKeys,
    oneHistory rfl rfl ?_ ?_ ?_⟩
  · intro op member
    simp only [mem_cons, not_mem_nil, or_false] at member
    rcases member with rfl | rfl | rfl
    · rfl
    · rfl
    · rfl
  · refine @injOn_statementsOf [first, second] ?_ _ (by simp)
    intro chain member
    simp only [mem_cons, not_mem_nil, or_false] at member
    rcases member with rfl | rfl
    · exact ⟨_, isFirst⟩
    · exact ⟨_, isSecond⟩
  · refine ⟨?_, ?_, ?_, trivial⟩
    · intro chain _ _ floor isFloor
      simp [createAreaLedger, get?_empty] at isFloor
    · simp
    · intro chain isChain _ floor isFloor _
      have isSame : second = chain := by simpa using isChain
      have floors : (((createAreaLedger lineVault).step
          (.commit first)).step (.uncommit sampleGroup)).floors =
            ((createAreaLedger lineVault).step (.commit first)).floors := rfl
      rw [floors, firstHolds.floor, Option.mem_def, Option.some.injEq]
        at isFloor
      rw [← isFloor, ← isSame, isFirst.groupKeys, isSecond.groupKeys]
      exact ⟨[lineKey 3], rfl⟩

end Ledger

end Worker

end HushOS
