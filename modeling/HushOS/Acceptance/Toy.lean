import HushOS.Acceptance.Family

namespace HushOS

open Toolkit List OrderedMap

/-!
# Toy families

Over `toy` primitives, in which every signature holds and statements are
hashed to their place in a list of rosters, a history under one group key is
accepted as it stands (`ToyHistory.accepted`).  The sample families are what
the development's results are seen at work on.
-/

/-- A text of as many bytes as asked for, all the same. -/
def bytesText (length value : Nat) : String :=
  Base64url.encode (List.replicate length (UInt8.ofNat value))

def toyHash (rosters : List Roster) (message : Bytes) : Nat :=
  match rosters.findIdx? fun roster => roster.bytes = message with
  | some index => index + 1
  | none => message.length / 8

def toyWith (hash : Bytes → Nat) : Primitives where
  sha256 message := List.replicate 32 (UInt8.ofNat (hash message))
  length_sha256 := by simp
  ed25519Verify _ _ _ := true
  mlDsa65Verify _ _ _ _ := true
  hkdf key _ := List.replicate 32 (key.headD 0)
  length_hkdf := by simp
  wordlist := List.replicate 2048 "word"
  length_wordlist := length_replicate
  spaceless_wordlist := by
    intro word member
    rw [eq_of_mem_replicate member]
    decide

/--
Primitives in which every signature holds.  A listed roster's statement is
hashed to its place, anything else by its length, a key to its first byte.
-/
def toy (rosters : List Roster) : Primitives where
  sha256 message :=
    List.replicate 32 (UInt8.ofNat (toyHash rosters message))
  length_sha256 := by simp
  ed25519Verify _ _ _ := true
  mlDsa65Verify _ _ _ _ := true
  hkdf key _ := List.replicate 32 (key.headD 0)
  length_hkdf := by simp
  wordlist := List.replicate 2048 "word"
  length_wordlist := length_replicate
  spaceless_wordlist := by
    intro word member
    rw [eq_of_mem_replicate member]
    decide

/-- A statement with signatures of the lengths they have. -/
def signedStatement (statement : Bytes) : SignedGroupStatement where
  statement := statement
  signature :=
    { ed25519 := List.replicate SIGNATURE_BYTES 0
      mlDsa := List.replicate ML_DSA_SIGNATURE_BYTES 0 }
  signerSignature := List.replicate HYBRID_SIGNATURE_BYTES 0

/-- A roster as the server serves it. -/
def Roster.signed (roster : Roster) : SignedGroupStatement :=
  signedStatement roster.bytes

/-- The roster a served statement holds, a default for anything else. -/
def rosterOf (copy : SignedGroupStatement) : Roster :=
  match parseRoster copy.statement with
  | .ok roster => roster
  | .error _ => ⟨"", .family, 0, "", 0, "", [], [], .one⟩

theorem isBytesOf_bytesText
    {length value : Nat}
    (positive : 0 < length) :
    isBytesOf (bytesText length value) length = true := by
  refine isBytesOf_encode ?_ length_replicate
  rw [ne_eq, replicate_eq_nil_iff]
  omega

theorem decode_bytesText
    {length value : Nat}
    (positive : 0 < length) :
    decode (bytesText length value) length =
      .ok (List.replicate length (UInt8.ofNat value)) := by
  have nonempty : List.replicate length (UInt8.ofNat value) ≠ [] := by
    rw [ne_eq, replicate_eq_nil_iff]
    omega
  have decoded := Primitives.decode_encode nonempty
  rwa [length_replicate] at decoded

theorem head?_bytes (roster : Roster) :
    roster.bytes.head? = some 91 := by
  have opening : String.utf8EncodeChar '[' = [91] := by decide
  rw [Roster.bytes, Json.compact, Utf8.encode, flatMap_cons, opening]
  rfl

theorem toyWith_digest (hash : Bytes → Nat) (message : Bytes) :
    (toyWith hash).digest message = bytesText 32 (hash message) :=
  rfl

theorem toy_digest_eq (rosters : List Roster) (message : Bytes) :
    (toy rosters).digest message = bytesText 32 (toyHash rosters message) :=
  rfl

variable {rosters : List Roster} {userId : String} {version : Nat} {pinned : List Nat}

/-- The toy digest of a roster is its place in the history. -/
theorem toy_digest
    {index : Nat}
    {roster : Roster}
    (valid : ∀ one ∈ rosters, one.Valid)
    (distinct : rosters.Nodup)
    (found : rosters[index]? = some roster) :
    (toy rosters).digest roster.bytes = bytesText 32 (index + 1) := by
  have place :
      rosters.findIdx? (fun one => one.bytes = roster.bytes) =
        some index := by
    obtain ⟨inside, isRoster⟩ := List.getElem?_eq_some_iff.mp found
    rw [findIdx?_eq_some_iff_getElem]
    refine ⟨inside, by simp [isRoster], ?_⟩
    intro earlier before
    simp only [decide_eq_true_eq]
    intro same
    have equal :=
      (valid _ (getElem_mem (by omega : earlier < rosters.length))
        ).eq_of_bytes (valid roster (mem_of_getElem? found)) same
    have positions := (List.Nodup.getElem_inj_iff distinct).mp
      (equal.trans isRoster.symm)
    omega
  show bytesText 32 (toyHash rosters roster.bytes) = _
  rw [toyHash, place]

theorem toy_digest_of_head
    {message : Bytes}
    (other : message.head? ≠ some 91) :
    (toy rosters).digest message = bytesText 32 (message.length / 8) := by
  have absent :
      rosters.findIdx? (fun roster => roster.bytes = message) = none := by
    rw [findIdx?_eq_none_iff]
    intro roster _
    simp only [decide_eq_false_iff_not]
    rintro rfl
    exact other (head?_bytes roster)
  show bytesText 32 (toyHash rosters message) = _
  rw [toyHash, absent]

theorem toyWith_verifyGroup
    {hash : Bytes → Nat}
    {key : GroupPublicKey}
    (valid : key.Valid)
    (statement message : Bytes) :
    (toyWith hash).verifyGroup message (signedStatement statement).signature
      key = true := by
  obtain ⟨ed25519, isEd25519⟩ :=
    Primitives.decode_isOk.mpr valid.ed25519PublicKey
  obtain ⟨mlDsa, isMlDsa⟩ := Primitives.decode_isOk.mpr valid.mlDsaPublicKey
  have edLength := (Primitives.encode_of_decode isEd25519).2
  have mlLength := (Primitives.encode_of_decode isMlDsa).2
  simp only [Primitives.verifyGroup, signedStatement, length_replicate,
    ne_eq, not_true_eq_false, or_self, ↓reduceIte, isEd25519, isMlDsa,
    Primitives.verifyStatement, Primitives.mlDsaVerify, edLength, mlLength,
    decide_true, Bool.true_and]
  rfl

theorem toy_verifyGroup
    {key : GroupPublicKey}
    (valid : key.Valid)
    (statement message : Bytes) :
    (toy rosters).verifyGroup message (signedStatement statement).signature
      key = true :=
  toyWith_verifyGroup valid statement message

def toyMlDsaKeys : OrderedMap String String :=
  OrderedMap.empty.set (bytesText 32 244)
    (bytesText ML_DSA_PUBLIC_KEY_BYTES 0)

def toyKey : GroupPublicKey where
  ed25519PublicKey := bytesText 32 1
  mlDsaPublicKey := bytesText ML_DSA_PUBLIC_KEY_BYTES 1

theorem toyKey_valid : toyKey.Valid where
  ed25519PublicKey := isBytesOf_bytesText (by decide)
  mlDsaPublicKey := isBytesOf_bytesText (by decide)

theorem toy_digest_replicate
    {length : Nat}
    {byte : UInt8}
    (other : byte ≠ 91) :
    (toy rosters).digest (List.replicate length byte) =
      bytesText 32 (length / 8) := by
  rw [toy_digest_of_head, length_replicate]
  cases length with
  | zero =>
    simp
  | succ length =>
    rw [replicate_succ, head?_cons, ne_eq, Option.some.injEq]
    exact other

/-- A toy entry that signs is taken as the roster's signer. -/
theorem toyWith_signedByMember
    {hash : Bytes → Nat}
    (digest :
      (toyWith hash).digest
          (List.replicate ML_DSA_PUBLIC_KEY_BYTES (UInt8.ofNat 0)) =
        bytesText 32 244)
    {authority : Roster}
    {entry : RosterMember}
    (found : rosterEntry authority userId = some entry)
    (mlDsa : entry.mlDsaPublicKeyDigest = bytesText 32 244)
    (signing : isBytesOf entry.signingPublicKey 32 = true)
    (statement : Bytes) :
    (toyWith hash).signedByMember authority userId
      (signedStatement statement) toyMlDsaKeys = true := by
  have listed :
      toyMlDsaKeys.get? (bytesText 32 244) =
        some (bytesText ML_DSA_PUBLIC_KEY_BYTES 0) := by
    rw [toyMlDsaKeys, get?_set, if_pos rfl]
  obtain ⟨signingKey, isSigning⟩ := Primitives.decode_isOk.mpr signing
  have signingLength := (Primitives.encode_of_decode isSigning).2
  have positive : 0 < ML_DSA_PUBLIC_KEY_BYTES := by decide
  have key := @decode_bytesText ML_DSA_PUBLIC_KEY_BYTES 0 positive
  simp only [Primitives.signedByMember, found, mlDsa, listed,
    Option.getD_some, key, isSigning, digest, decide_true, Bool.true_and,
    Primitives.verifyHybrid, Primitives.verifyStatement,
    Primitives.mlDsaVerify, signedStatement, length_replicate,
    take_replicate, drop_replicate, signingLength]
  rfl

theorem toy_signedByMember
    {authority : Roster}
    {entry : RosterMember}
    (found : rosterEntry authority userId = some entry)
    (mlDsa : entry.mlDsaPublicKeyDigest = bytesText 32 244)
    (signing : isBytesOf entry.signingPublicKey 32 = true)
    (statement : Bytes) :
    (toy rosters).signedByMember authority userId
      (signedStatement statement) toyMlDsaKeys = true := by
  refine toyWith_signedByMember ?_ found mlDsa signing statement
  show (toy rosters).digest
    (List.replicate ML_DSA_PUBLIC_KEY_BYTES (UInt8.ofNat 0)) = _
  rw [toy_digest_replicate (by decide)]
  rfl

/-- Rosters of valid toy members, each naming the one before. -/
structure ToyHistory (rosters : List Roster) : Prop where
  nonempty : rosters ≠ []
  valid : ∀ roster ∈ rosters, roster.Valid
  versions : ∀ {index : Nat} {roster : Roster},
    rosters[index]? = some roster → roster.rosterVersion = index + 1
  named : ∀ {index : Nat} {roster : Roster},
    rosters[index + 1]? = some roster →
      roster.previousRosterDigest = bytesText 32 (index + 1)
  small : rosters.length < 256
  keys : ∀ roster ∈ rosters, ∀ entry ∈ roster.members,
    entry.mlDsaPublicKeyDigest = bytesText 32 244
  ruled : Ruled none .empty rosters

def toyPin (version : Nat) : GroupPin where
  firstEd25519PublicKey := toyKey.ed25519PublicKey
  firstMlDsaPublicKeyDigest := bytesText 32 244
  checkedAt := "2024-01-01T00:00:00.000Z"
  keyVersion := 1
  groupKeyDigest := bytesText 32 248
  rosterVersion := version
  rosterDigest := bytesText 32 version
  areas := .empty

def toyInput
    (groupId : String)
    (me : Reader)
    (pinned : List Nat)
    (rosters : List Roster) :
    AcceptInput where
  groupId := groupId
  firstKeys := toyKey
  pins := pinned.map toyPin
  rosters := rosters.map Roster.signed
  successions := []
  mlDsaKeys := toyMlDsaKeys
  anchor := some .created
  device := by decide
  me := me
  cache := none

namespace ToyHistory

variable {rosters : List Roster}

theorem distinct
    (history : ToyHistory rosters) :
    rosters.Nodup := by
  rw [nodup_iff_injective_getElem]
  intro first second same
  have firstVersion := history.versions
    (getElem?_eq_getElem first.isLt)
  have secondVersion := history.versions
    (getElem?_eq_getElem second.isLt)
  dsimp only at same
  rw [same] at firstVersion
  exact Fin.ext (by omega)

theorem digest
    (history : ToyHistory rosters)
    {index : Nat}
    {roster : Roster}
    (found : rosters[index]? = some roster) :
    (toy rosters).digest roster.bytes = bytesText 32 (index + 1) :=
  toy_digest history.valid history.distinct found

theorem rosterOf_signed
    (history : ToyHistory rosters)
    {roster : Roster}
    (member : roster ∈ rosters) :
    parseRoster roster.signed.statement = .ok roster ∧
      rosterOf roster.signed = roster := by
  have read : parseRoster roster.signed.statement = .ok roster :=
    parseRoster_bytes (history.valid roster member)
  exact ⟨read, by rw [rosterOf, read]⟩

/-- A toy history is served in succession. -/
theorem successive
    (history : ToyHistory rosters)
    {groupId : String}
    (ofGroup : ∀ roster ∈ rosters, roster.groupId = groupId) :
    Successive (toy rosters) groupId 0 rosterOf
      (rosters.map Roster.signed) where
  reads := by
    intro copy member
    obtain ⟨roster, inRosters, rfl⟩ := mem_map.mp member
    obtain ⟨read, same⟩ := history.rosterOf_signed inRosters
    rw [read, same]
  ofGroup := by
    intro copy member
    obtain ⟨roster, inRosters, rfl⟩ := mem_map.mp member
    rw [(history.rosterOf_signed inRosters).2]
    exact ofGroup roster inRosters
  versions := by
    intro index copy found
    rw [getElem?_map, Option.map_eq_some_iff] at found
    obtain ⟨roster, isRoster, rfl⟩ := found
    rw [(history.rosterOf_signed (mem_of_getElem? isRoster)).2,
      history.versions isRoster, Nat.zero_add]
  named := by
    intro index before after isBefore isAfter
    rw [getElem?_map, Option.map_eq_some_iff] at isBefore isAfter
    obtain ⟨beforeRoster, isBefore, rfl⟩ := isBefore
    obtain ⟨afterRoster, isAfter, rfl⟩ := isAfter
    rw [(history.rosterOf_signed (mem_of_getElem? isAfter)).2,
      history.named isAfter]
    exact (history.digest isBefore).symm
  distinct := by
    rw [map_map]
    have places :
        rosters.map ((fun copy => (toy rosters).digest copy.statement) ∘
          Roster.signed) =
          (List.range rosters.length).map fun index =>
            bytesText 32 (index + 1) := by
      refine ext_getElem (by simp) ?_
      intro index inFirst inSecond
      rw [length_map] at inFirst
      simp only [getElem_map, getElem_range, Function.comp_apply]
      exact history.digest (getElem?_eq_getElem inFirst)
    rw [places]
    refine List.Nodup.map_on ?_ nodup_range
    intro first firstMember second secondMember same
    rw [mem_range] at firstMember secondMember
    have bytes := Base64url.encode_injective same
    rw [replicate_inj] at bytes
    have value := bytes.2.resolve_left (by decide)
    have small := history.small
    have naturals := congrArg UInt8.toNat value
    rw [UInt8.toNat_ofNat', UInt8.toNat_ofNat'] at naturals
    omega

theorem map_value
    (history : ToyHistory rosters) :
    ((rosters.map Roster.signed).map
        ((toy rosters).servedOnce rosterOf)).map Served.value = rosters := by
  rw [map_map, map_map]
  conv_rhs => rw [← map_id rosters]
  refine map_congr_left ?_
  intro roster member
  exact (history.rosterOf_signed member).2

/-- Every roster of a toy history is signed. -/
theorem allSigned
    (history : ToyHistory rosters)
    {later : List Roster}
    (suffix : later ⊆ rosters)
    {previous : Option Roster}
    (before : ∀ roster ∈ previous, roster ∈ rosters)
    {ledger : AreaLedger}
    (ruled : Ruled previous ledger later) :
    AllSigned (toy rosters) [toyKey] toyMlDsaKeys previous
      ((later.map Roster.signed).map
        ((toy rosters).servedOnce rosterOf)) := by
  induction later generalizing previous ledger with
  | nil =>
    trivial
  | cons next rest inductionHypothesis =>
    have inRosters : next ∈ rosters := suffix (by simp)
    have isValue := (history.rosterOf_signed inRosters).2
    obtain ⟨_, keyVersion, holder, _, _, _, _, _, laterRuled⟩ := ruled
    have authority : previous.getD next ∈ rosters := by
      cases previous with
      | none =>
        exact inRosters
      | some roster =>
        exact before roster rfl
    rw [map_cons, map_cons]
    refine ⟨⟨next.signed, mem_singleton_self _, ?_, ?_⟩, ?_⟩
    · refine ⟨toyKey, ?_, toy_verifyGroup toyKey_valid _ _⟩
      simp only [Primitives.servedOnce, isValue, keyVersion]
      rfl
    · simp only [Primitives.servedOnce, isValue]
      cases found :
          rosterEntry (previous.getD next) next.signerUserId with
      | none =>
        simp [found, activeWith] at holder
      | some entry =>
        have member := mem_of_rosterEntry found
        refine toy_signedByMember found
          (history.keys _ authority entry member) ?_ _
        exact ((history.valid _ authority).members entry
          member).signingPublicKey
    · have same :
          (some ((toy rosters).servedOnce rosterOf next.signed).value) =
            some next := by
        simp only [Primitives.servedOnce, isValue]
      rw [same]
      refine inductionHypothesis
        (fun _ member => suffix (by simp [member])) ?_ laterRuled
      intro roster isNext
      rw [Option.mem_def, Option.some.injEq] at isNext
      exact isNext ▸ inRosters

end ToyHistory

/-- The toy pin passes the pin check. -/
theorem checkGroupPin_toyPin
    {groupId : String}
    (isGroup : isUuid groupId = true)
    (positive : 1 ≤ version)
    (safe : version ≤ maxSafe) :
    checkGroupPin groupId (toyPin version) = .ok (toyPin version) := by
  have digest (value : Nat) : isDigest (bytesText 32 value) = true :=
    isBytesOf_bytesText (by decide)
  have time : isCheckTime "2024-01-01T00:00:00.000Z" = true := by decide
  simp only [checkGroupPin, toyPin, bind_eq_ok, exists_unit, refuseIf_eq_ok,
    forEach_eq_ok, uuid_eq_ok, integer_eq_ok, bytesOf_eq_ok, digestOf_eq_ok,
    Json.Plain.text.injEq, Json.Plain.number.injEq, time]
  refine ⟨groupId, ⟨rfl, isGroup⟩, by decide, by simp,
    by simp [OrderedMap.values, OrderedMap.empty], _,
    ⟨rfl, isBytesOf_bytesText (by decide)⟩, _, ⟨rfl, digest _⟩, 1,
    ⟨rfl, by decide, by decide⟩, _, ⟨rfl, digest _⟩, version,
    ⟨rfl, positive, safe⟩, _, ⟨rfl, digest _⟩, trivial⟩

theorem groupKeyDigest_toyKey :
    (toy rosters).groupKeyDigest toyKey = .ok (bytesText 32 248) := by
  rw [Primitives.groupKeyDigest_eq_ok]
  refine ⟨_, _, decode_bytesText (by decide),
    decode_bytesText (by decide), ?_⟩
  rw [replicate_append_replicate, toy_digest_replicate (by decide)]
  rfl

theorem mlDsaDigest_toyKey :
    (toy rosters).mlDsaDigest toyKey.mlDsaPublicKey =
      some (bytesText 32 244) := by
  have positive : 0 < ML_DSA_PUBLIC_KEY_BYTES := by decide
  have isKey : decode toyKey.mlDsaPublicKey ML_DSA_PUBLIC_KEY_BYTES =
      .ok (List.replicate ML_DSA_PUBLIC_KEY_BYTES (UInt8.ofNat 1)) :=
    decode_bytesText positive
  rw [Primitives.mlDsaDigest, isKey]
  show some ((toy rosters).digest
    (List.replicate ML_DSA_PUBLIC_KEY_BYTES (UInt8.ofNat 1))) = _
  rw [toy_digest_replicate (by decide)]
  rfl

def toyMarks (rosters : List Roster) (pinned : List Nat) : Marks :=
  (pinned.map toyPin).foldl (toy rosters).markPin .none

theorem mem_toyMarks_rosters
    {side : MarkSide} :
    side ∈ (toyMarks rosters pinned).rosters.listAt version ↔
      version ∈ pinned ∧ side = pinRosterSide (toyPin version) := by
  have marked := @Primitives.markedBy_pins (toy rosters) (pinned.map toyPin)
  rw [toyMarks, marked.rosters, mem_listAt_placed]
  simp only [Option.map_none, Option.getD_none, append_nil,
    map_map, mem_map, Function.comp_apply, Prod.mk.injEq]
  constructor
  · rintro ⟨_, member, rfl, rfl⟩
    exact ⟨member, rfl⟩
  · rintro ⟨member, rfl⟩
    exact ⟨version, member, rfl, rfl⟩

theorem mem_toyMarks_versions
    {version : Nat} :
    version ∈ (toyMarks rosters pinned).rosters.keys ↔
      version ∈ pinned := by
  have marked := @Primitives.markedBy_pins (toy rosters) (pinned.map toyPin)
  rw [toyMarks, marked.rosters, mem_keys_placed]
  simp only [Option.map_none, Option.getD_none, append_nil,
    map_map, mem_map, Function.comp_apply, Prod.mk.injEq]
  constructor
  · rintro ⟨_, _, member, rfl, _⟩
    exact member
  · intro member
    exact ⟨_, version, member, rfl, rfl⟩

theorem mem_toyMarks_keys
    {side : MarkSide}
    (member : side ∈ (toyMarks rosters pinned).keys.listAt version) :
    version = 1 ∧ side.digest = bytesText 32 248 := by
  have marked := @Primitives.markedBy_pins (toy rosters) (pinned.map toyPin)
  rw [toyMarks, marked.keys, mem_listAt_placed] at member
  simp only [append_nil, map_map, mem_map,
    Function.comp_apply, Prod.mk.injEq] at member
  obtain ⟨_, _, rfl, rfl⟩ := member
  exact ⟨rfl, rfl⟩

theorem mem_toyMarks_first
    {side : MarkSide}
    (member : side ∈ (toyMarks rosters pinned).first) :
    side.digest =
      (toy rosters).firstKeysMark toyKey.ed25519PublicKey
        (some (bytesText 32 244)) := by
  have marked := @Primitives.markedBy_pins (toy rosters) (pinned.map toyPin)
  rw [toyMarks, marked.first] at member
  simp only [Option.map_none, Option.toList_none, append_nil,
    map_map, mem_map, Function.comp_apply] at member
  obtain ⟨_, _, rfl⟩ := member
  simp only [Primitives.pinFirstSide, toyPin]

def toyPrepared
    (rosters : List Roster)
    (pinned : List Nat)
    (grouped : OrderedMap String (Served Roster)) :
    Prepared where
  own := { cached := none, joinMark := none, pairMarks := [] }
  marks := toyMarks rosters pinned
  rosters := grouped
  successions := .empty
  line :=
    { extending := none
      bottom := 0
      head := 0 + (rosters.map Roster.signed).length
      path := (rosters.map Roster.signed).map
        ((toy rosters).servedOnce rosterOf) }

namespace ToyHistory

/-- A toy history is prepared with any pins inside it. -/
theorem prepared
    (history : ToyHistory rosters)
    {groupId : String}
    (isGroup : isUuid groupId = true)
    (ofGroup : ∀ roster ∈ rosters, roster.groupId = groupId)
    (me : Reader)
    {pinned : List Nat}
    (met : ∀ version ∈ pinned, 1 ≤ version ∧ version ≤ rosters.length) :
    ∃ grouped,
      PreparedHolds (toy rosters)
        (toyInput groupId me pinned rosters).accepting
        (toyPrepared rosters pinned grouped) := by
  have positive := length_pos_iff.mpr history.nonempty
  have successive := history.successive ofGroup
  obtain ⟨grouped, collected, values, line⟩ :=
    @Successive.line (toy rosters) groupId none rosterOf
      (rosters.map Roster.signed) successive (by simp)
      (by
        simp only [cachedVersion, Option.map_none, Option.getD_none,
          Nat.zero_add, length_map]
        omega)
  refine ⟨grouped, ?_⟩
  exact {
    own := {
      groupId := isGroup
      pins := by
        intro pin inPins
        obtain ⟨version, isPinned, rfl⟩ := mem_map.mp inPins
        have small := history.small
        have inside := met version isPinned
        have large : 256 ≤ maxSafe := by decide
        exact ⟨_, checkGroupPin_toyPin isGroup inside.1 (by omega)⟩
      cached := rfl
      joinMark := rfl
      joinShaped := by simp [toyInput, AcceptInput.accepting]
      pairMarks := rfl
      pairShaped := by simp [toyInput, AcceptInput.accepting]
      joinAnchor := by simp [toyInput, AcceptInput.accepting]
      joinOnly := by simp [toyInput, AcceptInput.accepting]
      reader := by simp [toyInput, AcceptInput.accepting] }
    marks := rfl
    agreed := by
      rw [agree_eq_ok]
      refine ⟨?_, ?_, ?_⟩
      · intro first isFirst second isSecond
        rw [mem_toyMarks_first isFirst, mem_toyMarks_first isSecond]
      · intro version first isFirst second isSecond
        rw [(mem_toyMarks_rosters.mp isFirst).2,
          (mem_toyMarks_rosters.mp isSecond).2]
      · intro version first isFirst second isSecond
        rw [(mem_toyMarks_keys isFirst).2, (mem_toyMarks_keys isSecond).2]
    rosters := collected
    sameGroup := by
      intro served member
      have inValues : served ∈ grouped.values := member
      rw [values] at inValues
      obtain ⟨copy, isCopy, rfl⟩ := mem_map.mp inValues
      exact successive.ofGroup copy isCopy
    successions := rfl
    firstKeys := by
      show (toy rosters).checkFirstKeys _ (toyMarks rosters pinned) = _
      cases first : (toyMarks rosters pinned).first with
      | nil =>
        simp [Primitives.checkFirstKeys, first, toyInput,
          AcceptInput.accepting]
      | cons mark rest =>
        have inFirst : mark ∈ (toyMarks rosters pinned).first := by
          simp [first]
        simp only [Primitives.checkFirstKeys, first, refuseIf_eq_ok,
          mem_toyMarks_first inFirst, not_not, toyInput,
          AcceptInput.accepting, mlDsaDigest_toyKey]
    line := line }

/-- A toy history is accepted with any pins inside it. -/
theorem accepted
    (history : ToyHistory rosters)
    {groupId : String}
    (isGroup : isUuid groupId = true)
    (ofGroup : ∀ roster ∈ rosters, roster.groupId = groupId)
    (me : Reader)
    {pinned : List Nat}
    (met : ∀ version ∈ pinned, 1 ≤ version ∧ version ≤ rosters.length) :
    ∃ chain state,
      (toy rosters).accept (toyInput groupId me pinned rosters).accepting =
          .ok (chain, state) ∧
        state.held.map Held.roster = rosters ∧
        state.keys = [toyKey] := by
  obtain ⟨grouped, holds⟩ := history.prepared isGroup ofGroup me met
  have isValue := history.map_value
  obtain ⟨after, passes, keys, verified, keyMarks⟩ :=
    @Ruled.passes (toy rosters)
      (toyPrepared rosters pinned grouped).line.path none
      (startState (toyInput groupId me pinned rosters).accepting
        (toyPrepared rosters pinned grouped))
      (by
        rw [show (toyPrepared rosters pinned grouped).line.path.map
          Served.value = rosters from isValue]
        exact history.ruled)
      (history.allSigned (fun _ member => member) (by simp) history.ruled)
      rfl (by simp) ⟨toyKey, rfl⟩ rfl rfl
  have rostersHeld : after.held.map Held.roster = rosters := by
    rw [passes.held, map_append, map_roster_holdAll]
    exact isValue
  have nonempty : after.held ≠ [] := by
    intro empty
    rw [empty] at rostersHeld
    exact history.nonempty rostersHeld.symm
  have digests :
      digestsOf (toyPrepared rosters pinned grouped).line =
        rosters.map fun roster => (toy rosters).digest roster.bytes := by
    simp only [digestsOf, toyPrepared, Option.map_none, Option.getD_none,
      nil_append, map_map]
    rfl
  have marksMet :
      MarksMet (toy rosters) (toyInput groupId me pinned rosters).accepting
        (toyPrepared rosters pinned grouped) after := {
    rosters := by
      intro version marked
      obtain ⟨positive, inside⟩ := met version
        (mem_toyMarks_versions.mp marked)
      rw [digests, length_map]
      refine ⟨inside, ?_⟩
      intro side isSide
      have digest := history.digest
        (getElem?_eq_getElem (by omega : version - 1 < rosters.length))
      rw [show version - 1 + 1 = version by omega] at digest
      rw [(mem_toyMarks_rosters.mp isSide).2, getD_eq_getElem?_getD,
        getElem?_map,
        getElem?_eq_getElem (by omega : version - 1 < rosters.length)]
      exact digest.symm
    join := by simp [toyPrepared]
    pairs := by simp [toyPrepared]
    letIn := by simp [firstUse, toyInput, AcceptInput.accepting]
    keys := by
      intro version marked
      have start : after.keyMarks = (toyMarks rosters pinned).keyMarks :=
        keyMarks
      have isKeys : after.keys = [toyKey] := keys
      have markedBy := @Primitives.markedBy_pins (toy rosters)
        (pinned.map toyPin)
      rw [start] at marked ⊢
      obtain ⟨side, isSide⟩ := markedBy.mem_keyMarks.mp marked
      obtain ⟨rfl, digest⟩ := mem_toyMarks_keys isSide
      have isMark : (((toyMarks rosters pinned).keyMarks.get? 1).getD
          default).digest = side.digest :=
        Marks.digest_get?_keyMarks holds.agreed isSide
      rw [isMark, digest, isKeys]
      exact ⟨le_rfl, groupKeyDigest_toyKey⟩ }
  obtain ⟨refused, waiting, digest, isDigest, accepted⟩ :=
    (Continues.first holds rfl).accept holds passes marksMet
      (getLast?_eq_some_getLast nonempty)
  exact ⟨_, _, accepted, rostersHeld, keys⟩

end ToyHistory

def sampleGroup : String := "00000000-0000-4000-8000-000000000001"

def sampleOwner : String := "00000000-0000-4000-8000-00000000000a"

def sampleMember : String := "00000000-0000-4000-8000-00000000000b"

def sampleArea : String := "00000000-0000-4000-8000-0000000000f1"

def toyEntry
    (userId : String)
    (keyVersion : Nat)
    (status : MemberStatus)
    (roles : List GroupRole)
    (sinceVersion : Nat) :
    RosterMember where
  userId := userId
  keyVersion := keyVersion
  encryptionPublicKey := bytesText 32 keyVersion
  signingPublicKey := bytesText 32 keyVersion
  mlDsaPublicKeyDigest := bytesText 32 244
  kemPublicKeyDigest := bytesText 32 148
  status := status
  roles := roles
  sinceVersion := sinceVersion

def toyRoster
    (version : Nat)
    (members : List RosterMember)
    (areas : List RosterArea) :
    Roster where
  groupId := sampleGroup
  kind := .family
  rosterVersion := version
  previousRosterDigest := if version = 1 then "" else bytesText 32 (version - 1)
  groupKeyVersion := 1
  signerUserId := sampleOwner
  members := members
  areas := areas
  format := .two

def sampleFirst : Roster :=
  toyRoster 1
    [toyEntry sampleOwner 1 .active [.members] 1,
      toyEntry sampleMember 1 .active [] 1]
    [⟨sampleArea, 1, bytesText 32 101, some (bytesText 32 201), false⟩]

def sampleSecond : Roster :=
  toyRoster 2
    [toyEntry sampleOwner 1 .active [.members] 1,
      toyEntry sampleMember 1 .left [] 2]
    [⟨sampleArea, 2, bytesText 32 102, some (bytesText 32 202), false⟩]

def sampleFamily : List Roster := [sampleFirst, sampleSecond]

/-- The toy entry is a valid family member's. -/
theorem toyEntry_valid
    {keyVersion : Nat}
    {status : MemberStatus}
    {roles : List GroupRole}
    {sinceVersion rosterVersion : Nat}
    (isUser : isUuid userId = true)
    (positive : 1 ≤ keyVersion)
    (safe : keyVersion ≤ maxSafe)
    (inKind : ∀ role ∈ roles, role ∈ GroupKind.family.roles)
    (sorted : (roles.map GroupRole.name).Pairwise Before)
    (sincePositive : 1 ≤ sinceVersion)
    (since : sinceVersion ≤ rosterVersion)
    (versionSafe : rosterVersion ≤ maxSafe) :
    (toyEntry userId keyVersion status roles sinceVersion).Valid .family
      rosterVersion where
  roles := inKind
  roles_sorted := sorted
  since_pos := sincePositive
  since_le := since.trans versionSafe
  since_le_version := since
  userId := isUser
  keyVersion_pos := positive
  keyVersion_le := safe
  encryptionPublicKey := isBytesOf_bytesText (by decide)
  signingPublicKey := isBytesOf_bytesText (by decide)
  mlDsaPublicKeyDigest := isBytesOf_bytesText (by decide)
  kemPublicKeyDigest := isBytesOf_bytesText (by decide)

/-- The toy roster is valid where its members and rows are. -/
theorem toyRoster_valid
    {members : List RosterMember}
    {areas : List RosterArea}
    (positive : 1 ≤ version)
    (safe : version ≤ maxSafe)
    (nonempty : members ≠ [])
    (few : members.length ≤ MAX_ROSTER_MEMBERS)
    (entries : ∀ member ∈ members, member.Valid .family version)
    (sorted : (members.map RosterMember.userId).Pairwise Before)
    (rowsFew : areas.length ≤ MAX_ROSTER_AREA_ROWS)
    (rows : ∀ area ∈ areas, area.Valid .two)
    (rowsSorted : (areas.map RosterArea.workspaceId).Pairwise Before) :
    (toyRoster version members areas).Valid where
  version_pos := positive
  version_le := safe
  first := by
    intro first
    exact if_pos first
  later := by
    intro later
    have isLater : (toyRoster version members areas).previousRosterDigest =
        bytesText 32 (version - 1) := if_neg later
    rw [isLater]
    exact isBytesOf_bytesText (by decide)
  nonempty := nonempty
  few := few
  members := entries
  members_sorted := sorted
  groupId := (by decide : isUuid sampleGroup = true)
  keyVersion_pos := le_rfl
  keyVersion_le := (by decide : 1 ≤ maxSafe)
  signerUserId := (by decide : isUuid sampleOwner = true)
  rows_few := rowsFew
  areas := rows
  areas_sorted := rowsSorted

theorem toyArea_valid
    {version commitment root : Nat}
    (positive : 1 ≤ version)
    (safe : version ≤ maxSafe) :
    RosterArea.Valid .two
      ⟨sampleArea, version, bytesText 32 commitment,
        some (bytesText 32 root), false⟩ where
  workspaceId := (by decide : isUuid sampleArea = true)
  version_pos := positive
  version_le := safe
  retired := by simp
  commitment := fun _ => isBytesOf_bytesText (by decide)
  root := fun _ _ => ⟨_, rfl, isBytesOf_bytesText (by decide)⟩
  rootless := by simp

/-- Every roster of the sample family is valid. -/
theorem sampleFamily_valid :
    ∀ roster ∈ sampleFamily, roster.Valid := by
  intro roster member
  simp only [sampleFamily, mem_cons, not_mem_nil, or_false]
    at member
  rcases member with rfl | rfl
  · refine toyRoster_valid (by decide) (by decide) (by simp) (by decide) ?_
      (by decide) (by decide) ?_ (by decide)
    · intro entry inMembers
      simp only [mem_cons, not_mem_nil, or_false] at inMembers
      rcases inMembers with rfl | rfl <;>
        exact toyEntry_valid (by decide) (by decide) (by decide)
          (by decide) (by decide) (by decide) (by decide) (by decide)
    · intro area inAreas
      rw [mem_singleton] at inAreas
      exact inAreas ▸ toyArea_valid (by decide) (by decide)
  · refine toyRoster_valid (by decide) (by decide) (by simp) (by decide) ?_
      (by decide) (by decide) ?_ (by decide)
    · intro entry inMembers
      simp only [mem_cons, not_mem_nil, or_false] at inMembers
      rcases inMembers with rfl | rfl <;>
        exact toyEntry_valid (by decide) (by decide) (by decide)
          (by decide) (by decide) (by decide) (by decide) (by decide)
    · intro area inAreas
      rw [mem_singleton] at inAreas
      exact inAreas ▸ toyArea_valid (by decide) (by decide)

/-- The sample family is a toy history. -/
theorem sampleFamily_history : ToyHistory sampleFamily where
  nonempty := by simp [sampleFamily]
  valid := sampleFamily_valid
  versions := by
    intro index roster found
    rcases index with _ | _ | _ <;>
      simp only [sampleFamily, getElem?_cons_zero,
        getElem?_cons_succ, getElem?_nil, Option.some.injEq,
        reduceCtorEq] at found
    · exact found ▸ rfl
    · exact found ▸ rfl
  named := by
    intro index roster found
    rcases index with _ | _ <;>
      simp only [sampleFamily, getElem?_cons_zero,
        getElem?_cons_succ, getElem?_nil, Option.some.injEq,
        reduceCtorEq] at found
    exact found ▸ rfl
  small := by decide
  keys := by decide
  ruled := by
    refine ⟨by simp, rfl, rfl, rfl, by decide, by simp, by simp, rfl, ?_⟩
    refine ⟨?_, rfl, rfl, rfl, by decide, ?_, ?_, rfl, trivial⟩
    · rintro _ ⟨⟩
      rfl
    · rintro _ ⟨⟩
      rfl
    · rintro _ ⟨⟩
      rfl

def sampleReader : Reader where
  userId := sampleOwner
  identities := []

theorem sampleFamily_accepted :
    ∃ chain state,
      (toy sampleFamily).accept
          (toyInput sampleGroup sampleReader [] sampleFamily).accepting =
        .ok (chain, state) ∧
        state.held.map Held.roster = sampleFamily := by
  obtain ⟨chain, state, accepted, held, _⟩ :=
    @ToyHistory.accepted _ sampleFamily_history sampleGroup (by decide)
      (by decide) sampleReader [] (by simp)
  exact ⟨chain, state, accepted, held⟩

end HushOS
