import HushOS.Acceptance.Marks
import HushOS.GroupSuccessions

namespace HushOS

open Toolkit OrderedMap

/-!
# The cache of a chain

What a device keeps of a chain it verified, so that the next sync continues
from it.  The cache is checked whole before it is used, and every failure is
the same refusal; `CacheHolds` says what the check accepts.
-/

/-- A member's keys as an entry names them. -/
structure KeySet where
  encryptionPublicKey : String
  signingPublicKey : String
  mlDsaPublicKeyDigest : String
  deriving DecidableEq, Repr

/-- A verified succession: the roster it is tied to, its digest, its signer. -/
structure Verified where
  lastRosterVersion : Nat
  digest : String
  signerUserId : String
  deriving DecidableEq, Repr

/-- What a device, or the server, keeps of a chain it verified. -/
structure GroupChainCache where
  groupId : String
  rosterDigests : List String
  /-- The last roster's statement, base64url. -/
  statement : String
  droppedHolder : Bool
  /-- Every group key, version 1 first. -/
  groupKeys : List GroupPublicKey
  /-- Every succession, from key 1 on. -/
  successions : List Verified
  creatorUserId : String
  keyHistory : OrderedMap String (List KeySet)
  areaKeys : OrderedMap String (List String)
  areaRoots : Option (OrderedMap String (List (Option String)))
  retiredAreas : Option (List String)
  cacheVersion : Option Nat
  ownEntryWrongAt : List Nat
  /-- Only the server's record has one. -/
  origin : Option String

/-- A cache as acceptance uses it, once checked. -/
structure Cached where
  rosterDigests : List String
  statement : Bytes
  roster : Roster
  droppedHolder : Bool
  groupKeys : List GroupPublicKey
  successions : List Verified
  creatorUserId : String
  keyHistory : OrderedMap String (List KeySet)
  areaKeys : OrderedMap String (List String)
  areaRoots : OrderedMap String (List (Option String))
  retiredAreas : List String
  ownEntryWrongAt : List Nat

def CACHE_VERSION : Nat := 2

def INVALID_CACHE : CryptoError := invalid "member list cache"

/-- A value a check accepts is kept as it was. -/
def checked (check : Except CryptoError α) : Except CryptoError Unit :=
  check.map fun _ => ()

/-- A cache's succession, its fields checked. -/
def checkCachedSuccession (verified : Verified) : Except CryptoError Unit := do
  checked (integer (.number verified.lastRosterVersion) "roster version")
  checked (digestOf (.text verified.digest) "statement digest")
  checked (uuid (.text verified.signerUserId) "user id")

/-- A cache's key set, its fields checked. -/
def checkCachedKeySet (keys : KeySet) : Except CryptoError Unit := do
  checked (bytesOf (.text keys.encryptionPublicKey) 32 "encryption key")
  checked (bytesOf (.text keys.signingPublicKey) 32 "signing key")
  checked (digestOf (.text keys.mlDsaPublicKeyDigest) "key digest")

/-- Whether a cache was written before format 2. -/
def beforeFormat2 (cache : GroupChainCache) : Bool :=
  cache.cacheVersion.getD 1 = 1

/-- The roots beside a cache's keys, none of them listed before format 2. -/
def cachedRoots (cache : GroupChainCache) :
    OrderedMap String (List (Option String)) :=
  let roots := cache.areaRoots.getD .empty
  cache.areaKeys.mapEntries fun workspaceId list =>
    if beforeFormat2 cache then
      list.map fun _ => none
    else
      roots.listAt workspaceId

/-- A cache's areas as its own version says, with their roots. -/
def checkCachedAreas (cache : GroupChainCache) : Except CryptoError Unit := do
  forEach
    (fun entry => do
      refuseIf (entry.2 = []) INVALID_CACHE
      checked (uuid (.text entry.1) "workspace id")
      forEach
        (fun commitment =>
          checked (digestOf (.text commitment) "area key commitment"))
        entry.2)
    cache.areaKeys.entries
  let version := cache.cacheVersion.getD 1
  refuseIf (version ≠ 1 ∧ version ≠ CACHE_VERSION) INVALID_CACHE
  let roots := cache.areaRoots.getD .empty
  refuseIf (∃ workspaceId ∈ roots.keys, workspaceId ∉ cache.areaKeys.keys)
    INVALID_CACHE
  refuseIf
    (version = 1 ∧
      (roots.keys ≠ [] ∨ cache.retiredAreas.getD [] ≠ []))
    INVALID_CACHE
  refuseIf
    (version ≠ 1 ∧
      (cache.areaRoots.isNone = true ∨ cache.retiredAreas.isNone = true))
    INVALID_CACHE
  forEach
    (fun entry => do
      refuseIf
        (((cachedRoots cache).listAt entry.1).length ≠ entry.2.length)
        INVALID_CACHE
      forEach
        (fun root =>
          match root with
          | none => .ok ()
          | some root =>
            checked (digestOf (.text root) "area root commitment"))
        ((cachedRoots cache).listAt entry.1))
    cache.areaKeys.entries
  forEach (fun workspaceId => checked (uuid (.text workspaceId) "workspace id"))
    (cache.retiredAreas.getD [])
  checked (ascending (cache.retiredAreas.getD []) "retired areas")
  refuseIf
    (∃ workspaceId ∈ cache.retiredAreas.getD [],
      workspaceId ∉ cache.areaKeys.keys)
    INVALID_CACHE

/-- A row of the cached roster: its area's latest key, or its tombstone. -/
def checkCachedRow (cache : GroupChainCache) (area : RosterArea) :
    Except CryptoError Unit :=
  let retired := cache.retiredAreas.getD []
  let listed := cache.areaKeys.get? area.workspaceId
  if area.retired then
    refuseIf
      (area.workspaceId ∉ retired ∨
        listed.map List.length ≠ some (area.workspaceKeyVersion - 1))
      INVALID_CACHE
  else
    refuseIf
      (listed.map List.length ≠ some area.workspaceKeyVersion ∨
        listed.bind List.getLast? ≠ some area.commitment ∨
        ((cachedRoots cache).listAt area.workspaceId).getLast? ≠
          some area.rootCommitment ∨
        area.workspaceId ∈ retired)
      INVALID_CACHE

section

variable (P : Primitives)

/-- The cache as acceptance uses it, or refused for whatever reason. -/
def Primitives.readCache
    (groupId : String)
    (cache : GroupChainCache)
    (server : Bool) :
    Except CryptoError Cached := do
  refuseIf (cache.groupId ≠ groupId) INVALID_CACHE
  refuseIf (cache.origin ≠ if server then some "server" else none)
    INVALID_CACHE
  refuseIf (cache.rosterDigests = []) INVALID_CACHE
  forEach (fun digest => checked (digestOf (.text digest) "roster digest"))
    cache.rosterDigests
  let statement ←
    (Base64url.decode cache.statement).elim (.error INVALID_CACHE) .ok
  let roster ← parseRoster statement
  refuseIf
    (roster.groupId ≠ groupId ∨
      roster.rosterVersion ≠ cache.rosterDigests.length ∨
      cache.rosterDigests.getLast? ≠ some (P.digest statement))
    INVALID_CACHE
  forEach
    (fun key => do
      checked (bytesOf (.text key.ed25519PublicKey) 32 "group key")
      checked
        (bytesOf (.text key.mlDsaPublicKey) ML_DSA_PUBLIC_KEY_BYTES
          "group key"))
    cache.groupKeys
  refuseIf (cache.groupKeys.length < roster.groupKeyVersion) INVALID_CACHE
  refuseIf (cache.successions.length + 1 ≠ cache.groupKeys.length)
    INVALID_CACHE
  forEach checkCachedSuccession cache.successions
  refuseIf
    ((∃ verified ∈ cache.successions,
        cache.rosterDigests.length < verified.lastRosterVersion) ∨
      ¬ (cache.successions.map Verified.lastRosterVersion).IsChain (· ≤ ·))
    INVALID_CACHE
  checked (uuid (.text cache.creatorUserId) "user id")
  forEach
    (fun entry => do
      forEach checkCachedKeySet entry.2
      refuseIf (¬ entry.2.Nodup) INVALID_CACHE
      checked (uuid (.text entry.1) "user id"))
    cache.keyHistory.entries
  checkCachedAreas cache
  forEach (checkCachedRow cache) roster.areas
  refuseIf
    (roster.rosterVersion = 1 ∧
      cache.areaKeys.keys.length ≠ roster.areas.length)
    INVALID_CACHE
  forEach
    (fun version => checked (integer (.number version) "roster version"))
    cache.ownEntryWrongAt
  refuseIf
    ((∃ version ∈ cache.ownEntryWrongAt,
        cache.rosterDigests.length < version) ∨
      ¬ cache.ownEntryWrongAt.IsChain (· < ·))
    INVALID_CACHE
  .ok { rosterDigests := cache.rosterDigests, statement, roster
        droppedHolder := cache.droppedHolder
        groupKeys := cache.groupKeys, successions := cache.successions
        creatorUserId := cache.creatorUserId
        keyHistory := cache.keyHistory, areaKeys := cache.areaKeys
        areaRoots := cachedRoots cache
        retiredAreas := cache.retiredAreas.getD []
        ownEntryWrongAt := cache.ownEntryWrongAt }

/-- The cache, every part in its canonical form and consistent, or refused. -/
def Primitives.checkCache
    (groupId : String)
    (cache : GroupChainCache)
    (server : Bool) :
    Except CryptoError Cached :=
  withReason INVALID_CACHE (P.readCache groupId cache server)

end

/-- A key set whose fields are keys and a digest. -/
structure KeySet.Valid (keys : KeySet) : Prop where
  encryptionPublicKey : isBytesOf keys.encryptionPublicKey 32 = true
  signingPublicKey : isBytesOf keys.signingPublicKey 32 = true
  mlDsaPublicKeyDigest : isDigest keys.mlDsaPublicKeyDigest = true

/-- A group key whose halves are keys. -/
structure GroupPublicKey.Valid (key : GroupPublicKey) : Prop where
  ed25519PublicKey : isBytesOf key.ed25519PublicKey 32 = true
  mlDsaPublicKey :
    isBytesOf key.mlDsaPublicKey ML_DSA_PUBLIC_KEY_BYTES = true

/-- A verified succession whose fields are a version, a digest and a user. -/
structure Verified.Valid (verified : Verified) : Prop where
  tie_pos : 1 ≤ verified.lastRosterVersion
  tie_le : verified.lastRosterVersion ≤ maxSafe
  digest : isDigest verified.digest = true
  signerUserId : isUuid verified.signerUserId = true

/-- A row that stands at the end of what a cache lists for its area. -/
structure CachedRowHolds
    (areaKeys : OrderedMap String (List String))
    (areaRoots : OrderedMap String (List (Option String)))
    (retiredAreas : List String)
    (area : RosterArea) : Prop where
  tombstone : area.retired = true → area.workspaceId ∈ retiredAreas ∧
    (areaKeys.get? area.workspaceId).map List.length =
      some (area.workspaceKeyVersion - 1)
  latest : area.retired = false →
    (areaKeys.get? area.workspaceId).map List.length =
        some area.workspaceKeyVersion ∧
      (areaKeys.get? area.workspaceId).bind List.getLast? =
        some area.commitment ∧
      (areaRoots.listAt area.workspaceId).getLast? =
        some area.rootCommitment ∧
      area.workspaceId ∉ retiredAreas

/-- A cache's areas in their canonical form. -/
structure CachedAreasHold
    (areaKeys : OrderedMap String (List String))
    (areaRoots : OrderedMap String (List (Option String)))
    (retiredAreas : List String) : Prop where
  ids : ∀ workspaceId ∈ areaKeys.keys, isUuid workspaceId = true
  nonempty : ∀ list ∈ areaKeys.values, list ≠ []
  commitments : ∀ list ∈ areaKeys.values, ∀ commitment ∈ list,
    isDigest commitment = true
  beside : areaRoots.keys = areaKeys.keys
  lengths : ∀ workspaceId,
    (areaRoots.listAt workspaceId).length =
      (areaKeys.listAt workspaceId).length
  roots : ∀ workspaceId, ∀ root,
    some root ∈ areaRoots.listAt workspaceId → isDigest root = true
  retired_ids : ∀ workspaceId ∈ retiredAreas, isUuid workspaceId = true
  retired_sorted : retiredAreas.Pairwise Before
  retired_listed : ∀ workspaceId ∈ retiredAreas, workspaceId ∈ areaKeys.keys

/-- What acceptance may take from a checked cache. -/
structure Cached.Holds
    (P : Primitives)
    (groupId : String)
    (cached : Cached) : Prop where
  digests : ∀ digest ∈ cached.rosterDigests, isDigest digest = true
  parsed : parseRoster cached.statement = .ok cached.roster
  groupId : cached.roster.groupId = groupId
  version : cached.roster.rosterVersion = cached.rosterDigests.length
  last : cached.rosterDigests.getLast? = some (P.digest cached.statement)
  keys : ∀ key ∈ cached.groupKeys, key.Valid
  keyVersion : cached.roster.groupKeyVersion ≤ cached.groupKeys.length
  aligned : cached.successions.length + 1 = cached.groupKeys.length
  successions : ∀ verified ∈ cached.successions, verified.Valid
  ties_le : ∀ verified ∈ cached.successions,
    verified.lastRosterVersion ≤ cached.rosterDigests.length
  ties_sorted :
    (cached.successions.map Verified.lastRosterVersion).IsChain (· ≤ ·)
  creatorUserId : isUuid cached.creatorUserId = true
  history : ∀ entry ∈ cached.keyHistory.entries,
    isUuid entry.1 = true ∧ entry.2.Nodup ∧ ∀ keys ∈ entry.2, keys.Valid
  areas :
    CachedAreasHold cached.areaKeys cached.areaRoots cached.retiredAreas
  rows : ∀ area ∈ cached.roster.areas,
    CachedRowHolds cached.areaKeys cached.areaRoots cached.retiredAreas area
  firstRows : cached.roster.rosterVersion = 1 →
    cached.areaKeys.keys.length = cached.roster.areas.length
  wrong_pos : ∀ version ∈ cached.ownEntryWrongAt,
    1 ≤ version ∧ version ≤ maxSafe
  wrong_le : ∀ version ∈ cached.ownEntryWrongAt,
    version ≤ cached.rosterDigests.length
  wrong_sorted : cached.ownEntryWrongAt.IsChain (· < ·)

@[simp] theorem checked_eq_ok
    {check : Except CryptoError α} :
    checked check = .ok () ↔ ∃ value, check = .ok value := by
  cases check <;> simp [checked, Except.map]

theorem checkCachedKeySet_eq_ok
    {keys : KeySet} :
    checkCachedKeySet keys = .ok () ↔ keys.Valid := by
  simp only [checkCachedKeySet, bind_eq_ok, exists_unit, checked_eq_ok,
    bytesOf_eq_ok, digestOf_eq_ok, Json.Plain.text.injEq, exists_eq_left']
  constructor
  · rintro ⟨encryption, signing, mlDsa⟩
    exact ⟨encryption, signing, mlDsa⟩
  · rintro ⟨encryption, signing, mlDsa⟩
    exact ⟨encryption, signing, mlDsa⟩

theorem checkCachedSuccession_eq_ok
    {verified : Verified} :
    checkCachedSuccession verified = .ok () ↔ verified.Valid := by
  simp only [checkCachedSuccession, bind_eq_ok, exists_unit, checked_eq_ok,
    integer_eq_ok, digestOf_eq_ok, uuid_eq_ok, Json.Plain.text.injEq,
    Json.Plain.number.injEq, exists_eq_left']
  constructor
  · rintro ⟨⟨positive, safe⟩, digest, signer⟩
    exact ⟨positive, safe, digest, signer⟩
  · rintro ⟨positive, safe, digest, signer⟩
    exact ⟨⟨positive, safe⟩, digest, signer⟩

@[simp] theorem keys_cachedRoots (cache : GroupChainCache) :
    (cachedRoots cache).keys = cache.areaKeys.keys := by
  simp [cachedRoots]

variable {cache : GroupChainCache} {cached : Cached}

/-- Areas that pass the cache check are well formed. -/
theorem cachedAreasHold_of_check
    (passed : checkCachedAreas cache = .ok ()) :
    CachedAreasHold cache.areaKeys (cachedRoots cache)
      (cache.retiredAreas.getD []) := by
  simp only [checkCachedAreas, bind_eq_ok, exists_unit, forEach_eq_ok,
    refuseIf_eq_ok, checked_eq_ok, uuid_eq_ok, digestOf_eq_ok,
    ascending_eq_ok, Json.Plain.text.injEq, exists_eq_left', not_exists,
    not_and, not_not] at passed
  obtain ⟨listed, _, _, _, _, rooted, retiredIds, retiredSorted,
    retiredListed⟩ := passed
  have entryOf {workspaceId : String}
      (member : workspaceId ∈ cache.areaKeys.keys) :
      ∃ list, (workspaceId, list) ∈ cache.areaKeys.entries ∧
        cache.areaKeys.get? workspaceId = some list := by
    obtain ⟨list, found⟩ := OrderedMap.mem_keys.mp member
    exact ⟨list, get?_eq_some.mp found, found⟩
  have absent {workspaceId : String}
      (missing : workspaceId ∉ cache.areaKeys.keys) :
      (cachedRoots cache).listAt workspaceId = [] ∧
        cache.areaKeys.listAt workspaceId = [] := by
    have noRoots := missing
    rw [← keys_cachedRoots cache] at noRoots
    simp [OrderedMap.listAt, get?_eq_none.mpr missing,
      get?_eq_none.mpr noRoots]
  exact {
    ids := by
      intro workspaceId member
      obtain ⟨list, entry, _⟩ := entryOf member
      exact (listed _ entry).2.1
    nonempty := by
      intro list member
      obtain ⟨workspaceId, found⟩ := mem_values.mp member
      exact (listed _ (get?_eq_some.mp found)).1
    commitments := by
      intro list member
      obtain ⟨workspaceId, found⟩ := mem_values.mp member
      exact (listed _ (get?_eq_some.mp found)).2.2
    beside := keys_cachedRoots cache
    lengths := by
      intro workspaceId
      by_cases member : workspaceId ∈ cache.areaKeys.keys
      · obtain ⟨list, entry, found⟩ := entryOf member
        simpa [OrderedMap.listAt, found] using (rooted _ entry).1
      · simp [absent member]
    roots := by
      intro workspaceId root rootMember
      by_cases member : workspaceId ∈ cache.areaKeys.keys
      · obtain ⟨list, entry, _⟩ := entryOf member
        have shaped := (rooted _ entry).2 _ rootMember
        simpa using shaped
      · simp [absent member] at rootMember
    retired_ids := retiredIds
    retired_sorted := by simpa using retiredSorted
    retired_listed := retiredListed }

theorem cachedRowHolds_iff
    {area : RosterArea} :
    checkCachedRow cache area = .ok () ↔
      CachedRowHolds cache.areaKeys (cachedRoots cache)
        (cache.retiredAreas.getD []) area := by
  unfold checkCachedRow
  cases retired : area.retired with
  | true =>
    simp only [↓reduceIte, refuseIf_eq_ok, not_or, not_not]
    constructor
    · rintro tombstone
      exact ⟨fun _ => tombstone, by simp [retired]⟩
    · intro holds
      exact holds.tombstone retired
  | false =>
    simp only [Bool.false_eq_true, ↓reduceIte, refuseIf_eq_ok, not_or,
      not_not]
    constructor
    · rintro ⟨length, commitment, root, live⟩
      exact ⟨by simp [retired],
        fun _ => ⟨length, commitment, root, live⟩⟩
    · intro holds
      exact holds.latest retired

/-- What a checked cache is, and what holds of it. -/
structure CacheHolds
    (P : Primitives)
    (groupId : String)
    (cache : GroupChainCache)
    (cached : Cached) : Prop where
  sameGroup : cache.groupId = groupId
  rosterDigests : cached.rosterDigests = cache.rosterDigests
  statement : cache.statement = Base64url.encode cached.statement
  droppedHolder : cached.droppedHolder = cache.droppedHolder
  groupKeys : cached.groupKeys = cache.groupKeys
  successions : cached.successions = cache.successions
  creatorUserId : cached.creatorUserId = cache.creatorUserId
  keyHistory : cached.keyHistory = cache.keyHistory
  areaKeys : cached.areaKeys = cache.areaKeys
  retiredAreas : cached.retiredAreas = cache.retiredAreas.getD []
  ownEntryWrongAt : cached.ownEntryWrongAt = cache.ownEntryWrongAt
  holds : cached.Holds P groupId

/-- A cache that passes its check is well formed. -/
theorem Primitives.cacheHolds_of_checkCache
    {P : Primitives}
    {groupId : String}
    {server : Bool}
    (passed : P.checkCache groupId cache server = .ok cached) :
    CacheHolds P groupId cache cached := by
  simp only [Primitives.checkCache, withReason_eq_ok, Primitives.readCache,
    bind_eq_ok, exists_unit, forEach_eq_ok, refuseIf_eq_ok, checked_eq_ok,
    checkCachedSuccession_eq_ok, checkCachedKeySet_eq_ok, uuid_eq_ok,
    integer_eq_ok, digestOf_eq_ok, bytesOf_eq_ok, cachedRowHolds_iff,
    Json.Plain.text.injEq, Json.Plain.number.injEq, exists_eq_left',
    not_exists, not_and, not_not, not_or, not_lt, Except.ok.injEq]
    at passed
  obtain ⟨sameGroup, _, _, digests, statement, decoded, roster, parsed,
    ⟨ofGroup, version, last⟩, keys, keyVersion, aligned, successions,
    ⟨tiesLe, tiesSorted⟩, creator, history, areas, rows, firstRows,
    wrongRange, ⟨wrongLe, wrongSorted⟩, rfl⟩ := passed
  have written : cache.statement = Base64url.encode statement := by
    cases read : Base64url.decode cache.statement with
    | none =>
      simp [read] at decoded
    | some bytes =>
      simp only [read, Option.elim_some, Except.ok.injEq] at decoded
      subst decoded
      exact (Base64url.decode_eq_some.mp read).1
  exact {
    sameGroup := sameGroup, rosterDigests := rfl, statement := written
    droppedHolder := rfl, groupKeys := rfl, successions := rfl
    creatorUserId := rfl, keyHistory := rfl, areaKeys := rfl
    retiredAreas := rfl, ownEntryWrongAt := rfl
    holds := {
      digests := digests, parsed := parsed, groupId := ofGroup
      version := version, last := last
      keys := fun key member => ⟨(keys key member).1, (keys key member).2⟩
      keyVersion := keyVersion, aligned := aligned
      successions := successions
      ties_le := tiesLe, ties_sorted := tiesSorted
      creatorUserId := creator
      history := fun entry member =>
        ⟨(history entry member).2.2, (history entry member).2.1,
          (history entry member).1⟩
      areas := cachedAreasHold_of_check areas, rows := rows
      firstRows := firstRows, wrong_pos := wrongRange
      wrong_le := wrongLe, wrong_sorted := wrongSorted } }

/-- The cache a chain's parts are kept as. -/
def Cached.toCache (cached : Cached) (groupId : String) : GroupChainCache where
  groupId := groupId
  rosterDigests := cached.rosterDigests
  statement := Base64url.encode cached.statement
  droppedHolder := cached.droppedHolder
  groupKeys := cached.groupKeys
  successions := cached.successions
  creatorUserId := cached.creatorUserId
  keyHistory := cached.keyHistory
  areaKeys := cached.areaKeys
  areaRoots := some cached.areaRoots
  retiredAreas := some cached.retiredAreas
  cacheVersion := some CACHE_VERSION
  ownEntryWrongAt := cached.ownEntryWrongAt
  origin := none

/-- A written cache is read back with its roots. -/
theorem cachedRoots_toCache
    (areas :
      CachedAreasHold cached.areaKeys cached.areaRoots cached.retiredAreas)
    (groupId : String) :
    cachedRoots (cached.toCache groupId) = cached.areaRoots := by
  apply ext_of_keys
  · rw [keys_cachedRoots, areas.beside]
    rfl
  · intro workspaceId
    have kept : beforeFormat2 (cached.toCache groupId) = false := by
      simp [beforeFormat2, Cached.toCache, CACHE_VERSION]
    simp only [cachedRoots, kept, Bool.false_eq_true, ↓reduceIte,
      get?_mapEntries]
    simp only [Cached.toCache, Option.getD_some]
    by_cases member : workspaceId ∈ cached.areaKeys.keys
    · obtain ⟨list, found⟩ := OrderedMap.mem_keys.mp member
      rw [← areas.beside] at member
      obtain ⟨roots, foundRoots⟩ := OrderedMap.mem_keys.mp member
      simp [found, foundRoots, OrderedMap.listAt]
    · have missing := get?_eq_none.mpr member
      rw [← areas.beside] at member
      simp [missing, get?_eq_none.mpr member]

/-- The areas of a written cache pass the cache check. -/
theorem checkCachedAreas_toCache
    (areas :
      CachedAreasHold cached.areaKeys cached.areaRoots cached.retiredAreas)
    (groupId : String) :
    checkCachedAreas (cached.toCache groupId) = .ok () := by
  have roots := cachedRoots_toCache areas groupId
  have entryIn {workspaceId : String} {list : List String}
      (member : (workspaceId, list) ∈ cached.areaKeys.entries) :
      workspaceId ∈ cached.areaKeys.keys ∧ list ∈ cached.areaKeys.values ∧
        cached.areaKeys.listAt workspaceId = list := by
    have found := get?_eq_some.mpr member
    exact ⟨OrderedMap.mem_keys.mpr ⟨list, found⟩,
      mem_values.mpr ⟨workspaceId, found⟩,
      by simp [OrderedMap.listAt, found]⟩
  simp only [checkCachedAreas, bind_eq_ok, exists_unit, forEach_eq_ok,
    refuseIf_eq_ok, checked_eq_ok, uuid_eq_ok, digestOf_eq_ok,
    ascending_eq_ok, Json.Plain.text.injEq, exists_eq_left', not_exists,
    not_and, not_not, roots]
  simp only [Cached.toCache, Option.getD_some]
  refine ⟨?_, by simp [CACHE_VERSION], ?_, by simp [CACHE_VERSION],
    by simp, ?_, areas.retired_ids, by simpa using areas.retired_sorted,
    areas.retired_listed⟩
  · rintro ⟨workspaceId, list⟩ member
    obtain ⟨inKeys, inValues, _⟩ := entryIn member
    exact ⟨areas.nonempty list inValues, areas.ids workspaceId inKeys,
      areas.commitments list inValues⟩
  · intro workspaceId member
    rwa [← areas.beside]
  · rintro ⟨workspaceId, list⟩ member
    obtain ⟨_, _, listed⟩ := entryIn member
    refine ⟨by rw [areas.lengths, listed], ?_⟩
    intro root rootMember
    cases root with
    | none =>
      rfl
    | some root =>
      simpa using areas.roots workspaceId root rootMember

/-- A cache written from well-formed state passes its own check. -/
theorem Primitives.checkCache_toCache
    {P : Primitives}
    {groupId : String}
    (holds : cached.Holds P groupId) :
    P.checkCache groupId (cached.toCache groupId) false = .ok cached := by
  have roots := cachedRoots_toCache holds.areas groupId
  have nonempty : cached.statement ≠ [] :=
    ne_nil_of_encodeStatement
      (rosterStatement_eq_ok.mp (parseRoster_eq_ok.mp holds.parsed)).2
  have decoded :
      Base64url.decode (Base64url.encode cached.statement) =
        some cached.statement :=
    Base64url.decode_eq_some.mpr ⟨rfl, nonempty⟩
  have listed : cached.rosterDigests ≠ [] := by
    intro empty
    have last := holds.last
    simp [empty] at last
  simp only [Primitives.checkCache, withReason_eq_ok, Primitives.readCache,
    bind_eq_ok, exists_unit, forEach_eq_ok, refuseIf_eq_ok, checked_eq_ok,
    checkCachedSuccession_eq_ok, checkCachedKeySet_eq_ok, uuid_eq_ok,
    integer_eq_ok, digestOf_eq_ok, bytesOf_eq_ok, cachedRowHolds_iff,
    Json.Plain.text.injEq, Json.Plain.number.injEq, exists_eq_left',
    not_exists, not_and, not_not, not_or, not_lt, Except.ok.injEq,
    checkCachedAreas_toCache holds.areas, roots]
  simp only [Cached.toCache, Option.getD_some, decoded, Option.elim_some]
  exact ⟨trivial, by simp, listed, holds.digests, _, rfl, _, holds.parsed,
    ⟨holds.groupId, holds.version, holds.last⟩,
    fun key member => ⟨(holds.keys key member).ed25519PublicKey,
      (holds.keys key member).mlDsaPublicKey⟩,
    holds.keyVersion, holds.aligned, holds.successions,
    ⟨holds.ties_le, holds.ties_sorted⟩, holds.creatorUserId,
    fun entry member => ⟨(holds.history entry member).2.2,
      (holds.history entry member).2.1, (holds.history entry member).1⟩,
    trivial, holds.rows, holds.firstRows, holds.wrong_pos,
    ⟨holds.wrong_le, holds.wrong_sorted⟩, rfl⟩

end HushOS
