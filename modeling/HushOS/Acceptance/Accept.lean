import HushOS.Acceptance.Judging

namespace HushOS

open Toolkit

/-!
# Acceptance

Acceptance takes a group's history as the server serves it, in four steps:
the person's own marks against each other; the chain, linked from the latest
roster served down to version 1 or to the cache; the chain verified in one
pass; and the marks against the verified chain.
-/

/-- An identity as the server serves it. -/
structure ServedKeys where
  keyVersion : Nat
  encryptionPublicKey : String
  signingPublicKey : String
  mlDsaPublicKey : String
  kemPublicKey : String
  deriving DecidableEq, Repr

/-- The reader, with every identity they have had. -/
structure Reader where
  userId : String
  identities : List ServedKeys

/-- What may vouch for a family's version 1 keys when nothing marks it. -/
inductive Anchor where
  | created
  | join
  | firstUse
  /-- The server's own keys as stored at creation; no device passes it. -/
  | stored
  deriving DecidableEq, Repr

/-- What acceptance takes. -/
structure Accepting where
  groupId : String
  firstKeys : GroupPublicKey
  pins : List GroupPin
  rosters : List SignedGroupStatement
  successions : List SignedGroupStatement
  mlDsaKeys : OrderedMap String String
  joinMark : Option JoinMark := none
  pairMarks : List PairMark := []
  anchor : Option Anchor
  me : Option Reader
  cache : Option GroupChainCache
  server : Bool := false

/-- What a device's acceptance takes: a reader, and no anchor of the server's. -/
structure AcceptInput where
  groupId : String
  firstKeys : GroupPublicKey
  pins : List GroupPin
  rosters : List SignedGroupStatement
  successions : List SignedGroupStatement
  mlDsaKeys : OrderedMap String String
  joinMark : Option JoinMark := none
  pairMarks : List PairMark := []
  anchor : Option Anchor
  device : anchor ≠ some .stored
  me : Reader
  cache : Option GroupChainCache

/-- A device's acceptance, as acceptance takes it. -/
def AcceptInput.accepting (input : AcceptInput) : Accepting where
  groupId := input.groupId
  firstKeys := input.firstKeys
  pins := input.pins
  rosters := input.rosters
  successions := input.successions
  mlDsaKeys := input.mlDsaKeys
  joinMark := input.joinMark
  pairMarks := input.pairMarks
  anchor := input.anchor
  me := some input.me
  cache := input.cache

/-- How a person vouched for a family. -/
inductive CheckedHow where
  | created
  | join
  | compared
  deriving DecidableEq, Repr

/-- How a family was vouched for in an acceptance, through which roster. -/
structure FamilyChecked where
  how : CheckedHow
  rosterVersion : Nat
  deriving DecidableEq, Repr

/-- A served roster not on the chain: its version and the signer it names. -/
structure DeadBranch where
  version : Nat
  signerUserId : String
  deriving DecidableEq, Repr

/-- A roster chain verified from version 1, with the group keys behind it. -/
structure ChainBody where
  groupId : String
  kind : GroupKind
  roster : Roster
  statement : Bytes
  rosterDigest : String
  rosterDigests : List String
  droppedHolder : Bool
  groupKeyVersion : Nat
  groupKey : GroupPublicKey
  groupKeyDigest : String
  groupKeys : List GroupPublicKey
  creatorUserId : String
  successionDue : Bool
  keyHistory : OrderedMap String (List KeySet)
  areaKeys : OrderedMap String (List String)
  areaRoots : OrderedMap String (List (Option String))
  retiredAreas : List String
  ownEntryWrongAt : List Nat
  ownEntryBehindAt : List Nat
  deadBranches : List DeadBranch
  cache : GroupChainCache
  checked : Option FamilyChecked

/-- What acceptance answers: the chain, or the hard warning. -/
inductive RosterChain where
  | accepted (chain : ChainBody)
  | fork (fork : RosterFork)

def OLDER : CryptoError :=
  ⟨"This is an older member list than this device has seen."⟩

def NOT_CHECKED : CryptoError :=
  ⟨"These are not the group keys this person checked."⟩

def NOT_EXTENDING : CryptoError :=
  ⟨"This member list does not continue the one this device holds: fetch it again from version 1."⟩

def NOT_LET_IN : CryptoError :=
  ⟨"This account is not in this family yet."⟩

def JOIN_ANCHOR : CryptoError :=
  ⟨"A join is anchored by the join code compared, and only a join is."⟩

def NOT_COMPARED : CryptoError :=
  ⟨"These group keys have not been checked: compare the join code first."⟩

def ANOTHER_GROUP : CryptoError :=
  ⟨"This roster is for another group."⟩

def NO_MEMBER_LIST : CryptoError :=
  ⟨"This group has no member list yet."⟩

def MORE_THAN_ONE_LATEST : CryptoError :=
  ⟨"The server served more than one latest member list."⟩

/-- The marks a person's pins and cache set, by version. -/
@[ext] structure Marks where
  rosters : OrderedMap Nat (List MarkSide)
  keys : OrderedMap Nat (List MarkSide)
  first : List MarkSide

/-- No marks. -/
def Marks.none : Marks := ⟨.empty, .empty, []⟩

/-- The versions marked, in order. -/
def versionsOf (marks : OrderedMap Nat α) : List Nat :=
  marks.keys.insertionSort (· ≤ ·)

section

variable (P : Primitives)

/-- A pin's marks: its roster, its group key, its first keys. -/
def Primitives.markPin (marks : Marks) (pin : GroupPin) : Marks where
  rosters := marks.rosters.push pin.rosterVersion
    { digest := pin.rosterDigest, sources := [.pin], signerUserId := none }
  keys := marks.keys.push pin.keyVersion
    { digest := pin.groupKeyDigest, sources := [.pin], signerUserId := none }
  first := marks.first ++
    [{ digest := P.firstKeysMark pin.firstEd25519PublicKey
         (some pin.firstMlDsaPublicKeyDigest)
       sources := [.pin]
       signerUserId := none }]

/-- The sides a cache's rosters set, from version 1 on. -/
def Cached.rosterSides (cached : Cached) : List (Nat × MarkSide) :=
  cached.rosterDigests.zipIdx.map fun (digest, index) =>
    (index + 1,
      { digest
        sources := [.cache]
        signerUserId :=
          if index + 1 = cached.rosterDigests.length then
            some cached.roster.signerUserId
          else
            none })

/-- The sides a cache's group keys set, from version 1 on. -/
def Primitives.keySides (cached : Cached) :
    Except CryptoError (List (Nat × MarkSide)) :=
  readEach
    (fun (key, index) => do
      let digest ← P.groupKeyDigest key
      .ok
        (index + 1,
          { digest
            sources := [.cache]
            signerUserId :=
              if index = 0 then
                none
              else
                (cached.successions[index - 1]?).map Verified.signerUserId }))
    cached.groupKeys.zipIdx

/-- A cache's marks added to the pins'. -/
def Primitives.markCache (marks : Marks) (cached : Cached) :
    Except CryptoError Marks := do
  let keySides ← P.keySides cached
  let first := cached.groupKeys.headD ⟨"", ""⟩
  .ok
    { rosters := cached.rosterSides.foldl
        (fun marks side => marks.push side.1 side.2) marks.rosters
      keys := keySides.foldl
        (fun marks side => marks.push side.1 side.2) marks.keys
      first := marks.first ++
        [{ digest := P.firstKeysMark first.ed25519PublicKey
             (P.mlDsaDigest first.mlDsaPublicKey)
           sources := [.cache]
           signerUserId := some cached.creatorUserId }] }

/-- The marks a person's pins and cache set. -/
def Primitives.marksOf (pins : List GroupPin) (cached : Option Cached) :
    Except CryptoError Marks :=
  let marks := pins.foldl P.markPin .none
  match cached with
  | none => .ok marks
  | some cached => P.markCache marks cached

/-- The marks against each other: first keys, then rosters, then keys. -/
def agree (marks : Marks) : Except Thrown Unit := do
  conflict .groupKey 1 marks.first
  forEach
    (fun version =>
      conflict .roster version (marks.rosters.listAt version))
    (versionsOf marks.rosters)
  forEach
    (fun version =>
      conflict .groupKey version (marks.keys.listAt version))
    (versionsOf marks.keys)

/-- Whether two served statements carry the same signatures. -/
def sameSignatures (first second : SignedGroupStatement) : Bool :=
  first.signature = second.signature &&
    first.signerSignature = second.signerSignature

/-- A served statement put with its copies, under its digest. -/
def Primitives.addServed
    (parse : Bytes → Except CryptoError α)
    (served : OrderedMap String (Served α))
    (copy : SignedGroupStatement) :
    Except CryptoError (OrderedMap String (Served α)) := do
  let value ← parse copy.statement
  let digest := P.digest copy.statement
  let held := (served.get? digest).getD
    { value, statement := copy.statement, digest, copies := [] }
  let copies :=
    if held.copies.any (sameSignatures copy) then
      held.copies
    else
      held.copies ++ [copy]
  .ok (served.set digest { held with copies })

/-- Served statements by digest, every distinct copy of signatures kept. -/
def Primitives.byDigest
    (signed : List SignedGroupStatement)
    (parse : Bytes → Except CryptoError α) :
    Except CryptoError (OrderedMap String (Served α)) :=
  foldEach (P.addServed parse) .empty signed

/-- The rosters linked by digest from one at the top down to a bottom. -/
def linkDown
    (rosters : OrderedMap String (Served Roster))
    (bottom : Nat) :
    Nat → Option (Served Roster) → Except CryptoError (List (Served Roster))
  | 0, _ => .ok []
  | steps + 1, at_ =>
    match at_ with
    | none => .error NOT_FOLLOWING
    | some at_ => do
        let version := bottom + steps + 1
        refuseIf (at_.value.rosterVersion ≠ version) NOT_FOLLOWING
        let below ← linkDown rosters bottom steps
          (if 1 < version then
            rosters.get? at_.value.previousRosterDigest
          else
            none)
        .ok (below ++ [at_])

/-- Where the served chain stands: what it continues, and its rosters. -/
structure Line where
  extending : Option Cached
  bottom : Nat
  head : Nat
  path : List (Served Roster)

/-- The chain from the latest roster served down to the cache or to 1. -/
def lineOf
    (cached : Option Cached)
    (rosters : OrderedMap String (Served Roster)) :
    Except CryptoError Line := do
  let cachedVersion :=
    (cached.map fun cached => cached.rosterDigests.length).getD 0
  let servedVersions :=
    rosters.values.map fun served => served.value.rosterVersion
  let extending :=
    if servedVersions.all (fun version => cachedVersion < version) then
      cached
    else
      none
  let bottom := if extending.isSome then cachedVersion else 0
  let head := servedVersions.foldl max bottom
  refuseIf (head = 0) NO_MEMBER_LIST
  let tops := rosters.values.filter fun served =>
    served.value.rosterVersion = head
  refuseIf (bottom < head ∧ 1 < tops.length) MORE_THAN_ONE_LATEST
  let path ← linkDown rosters bottom (head - bottom) tops.head?
  refuseIf
    ((extending.any fun cached =>
      path.head?.any fun next =>
        cached.rosterDigests.getLast? ≠
          some next.value.previousRosterDigest) = true)
    NOT_EXTENDING
  .ok { extending, bottom, head, path }

/-- A served roster as the chain holds it after another, if any. -/
def heldAfter (previous : Option Held) (served : Served Roster) : Held where
  roster := served.value
  statement := served.statement
  digest := served.digest
  droppedHolder :=
    previous.any fun previous => dropsHolder previous.roster served.value

/-- The state once a roster is held, its rows in the ledger. -/
def State.hold (state : State) (served : Served Roster) : State :=
  { state with
    areas := foldAreas state.areas served.value
    held := state.held ++ [heldAfter state.held.getLast? served] }

/-- One roster judged, held, and the successions tied to it taken. -/
def Primitives.passRoster (state : State) (served : Served Roster) :
    Except Thrown State := do
  P.rosterRules state served.value served.statement (some served.copies)
    state.held.getLast?
  throwing (P.establishAll (state.hold served))

/-- A succession put with the others from its key. -/
def addCandidate
    (candidates : OrderedMap Nat (List (Served GroupKeySuccession)))
    (served : Served GroupKeySuccession) :
    OrderedMap Nat (List (Served GroupKeySuccession)) :=
  candidates.push served.value.oldVersion served

/-- The state the pass starts from. -/
def startOf
    (groupId : String)
    (firstKeys : GroupPublicKey)
    (mlDsaKeys : OrderedMap String String)
    (marks : Marks)
    (successions : OrderedMap String (Served GroupKeySuccession))
    (extending : Option Cached) :
    State :=
  let state := stateOf groupId mlDsaKeys extending
  { state with
    keys := if extending.isSome then state.keys else [firstKeys]
    keyMarks := marks.keys.mapValues fun all => (sides all).headD default
    candidates := successions.values.foldl addCandidate .empty }

/-- The chain verified in one pass, successions taken as soon as tied. -/
def Primitives.pass (start : State) (path : List (Served Roster)) :
    Except Thrown State := do
  let state ← throwing (P.establishAll start)
  foldEach P.passRoster state path

/-- The group key version the roster at `version` is under. -/
def keyVersionAt (successions : List Verified) (version : Nat) : Nat :=
  successions.foldl
    (fun keyVersion out =>
      if out.lastRosterVersion < version then keyVersion + 1 else keyVersion)
    1

/-- The signer of a digest among the rosters verified here. -/
def verifiedSigner (state : State) (digest : String) : Option String :=
  (state.held.reverse.find? fun held => held.digest = digest).map fun held =>
    held.roster.signerUserId

/-- A side with its signer named, when its statement was verified. -/
def signedSide (state : State) (side : MarkSide) : MarkSide :=
  { side with
    signerUserId := side.signerUserId.or (verifiedSigner state side.digest) }

/-- The roster marks: the chain passes through each, and reaches them all. -/
def checkRosterMarks
    (marks : Marks)
    (state : State)
    (rosterDigests : List String) :
    Except Thrown Unit := do
  let head := rosterDigests.length
  forEach
    (fun version =>
      conflict .roster version
        ((marks.rosters.listAt version).map (signedSide state) ++
          [signedSide state
            { digest := rosterDigests.getD (version - 1) ""
              sources := [.served]
              signerUserId := none }]))
    ((versionsOf marks.rosters).filter (· ≤ head))
  throwing
    (refuseIf ((versionsOf marks.rosters).any (fun version => head < version) =
      true) OLDER)

/-- A code compared over a roster: the chain's code there must be it. -/
def checkCode
    (state : State)
    (rosterDigests : List String)
    (rosterVersion : Nat)
    (compared : List String)
    (source : MarkSource)
    (codeOf : String → GroupPublicKey → Nat → Except CryptoError (List String)) :
    Except Thrown Unit := do
  throwing (refuseIf (rosterDigests.length < rosterVersion) OLDER)
  let digest := rosterDigests.getD (rosterVersion - 1) ""
  let keyVersion := keyVersionAt state.verified rosterVersion
  let code ← throwing
    (codeOf digest (state.keys.getD (keyVersion - 1) ⟨"", ""⟩) keyVersion)
  if joined ' ' code ≠ joined ' ' compared then
    .error (.forked
      { of := .roster
        version := rosterVersion
        sides := sides
          [{ digest := joined ' ' compared
             sources := [source]
             signerUserId := none },
           { digest
             sources := [.served]
             signerUserId := verifiedSigner state digest }] })
  else
    .ok ()

/-- The join mark: the roster that admitted the newcomer, by its code. -/
def Primitives.checkJoin
    (joinMark : Option JoinMark)
    (state : State)
    (rosterDigests : List String) :
    Except Thrown Unit :=
  match joinMark with
  | none => .ok ()
  | some mark =>
    checkCode state rosterDigests mark.rosterVersion mark.code .join
      P.joinCode

/-- The pair marks, each by its code over the two accounts, by version. -/
def Primitives.checkPairs
    (pairMarks : List PairMark)
    (me : Option Reader)
    (state : State)
    (rosterDigests : List String) :
    Except Thrown Unit :=
  forEach
    (fun mark =>
      checkCode state rosterDigests mark.rosterVersion mark.code .pair
        fun digest key keyVersion =>
          P.pairCodeOf digest key keyVersion
            ((me.map Reader.userId).getD "") mark.other)
    (pairMarks.mergeSort fun first second =>
      first.rosterVersion ≤ second.rosterVersion)

/-- The group key marks: each the chain's, and the chain reaches them all. -/
def Primitives.checkKeyMarks (state : State) : Except Thrown Unit := do
  forEach
    (fun version => do
      let digest ← throwing
        (P.groupKeyDigest (state.keys.getD (version - 1) ⟨"", ""⟩))
      conflict .groupKey version
        [(state.keyMarks.get? version).getD default,
          { digest
            sources := [.served]
            signerUserId :=
              (state.verifiedAt (version - 1)).map Verified.signerUserId }])
    ((versionsOf state.keyMarks).filter (· ≤ state.keys.length))
  throwing
    (refuseIf
      ((versionsOf state.keyMarks).any
        (fun version => state.keys.length < version) = true)
      OLDER)

/-- The keys an entry names, as a key set. -/
def keySetOf (entry : RosterMember) : KeySet where
  encryptionPublicKey := entry.encryptionPublicKey
  signingPublicKey := entry.signingPublicKey
  mlDsaPublicKeyDigest := entry.mlDsaPublicKeyDigest

/-- A key set kept once, in the order first named. -/
def keepKeySet
    (history : OrderedMap String (List KeySet))
    (entry : RosterMember) :
    OrderedMap String (List KeySet) :=
  if (history.listAt entry.userId).contains (keySetOf entry) then
    history
  else
    history.push entry.userId (keySetOf entry)

/-- Whether a served identity's four keys are the ones an entry names. -/
def Primitives.servedKeysAreEntry
    (served : ServedKeys)
    (entry : RosterMember) :
    Bool :=
  served.encryptionPublicKey = entry.encryptionPublicKey &&
    served.signingPublicKey = entry.signingPublicKey &&
    match decode served.mlDsaPublicKey ML_DSA_PUBLIC_KEY_BYTES,
        decode served.kemPublicKey KEM_PUBLIC_KEY_BYTES with
    | .ok mlDsa, .ok kem =>
      P.digest mlDsa = entry.mlDsaPublicKeyDigest &&
        P.digest kem = entry.kemPublicKeyDigest
    | _, _ => false

/-- Whether a served identity is exactly the one an entry names. -/
def Primitives.servedIsEntry
    (served : ServedKeys)
    (entry : RosterMember) :
    Bool :=
  served.keyVersion = entry.keyVersion && P.servedKeysAreEntry served entry

/-- The key version of the reader's identity an entry names, if any. -/
def Primitives.identityNamed (me : Reader) (entry : RosterMember) :
    Option Nat :=
  (me.identities.find? fun identity => P.servedIsEntry identity entry).map
    ServedKeys.keyVersion

/-- The reader's entry on a roster, if they have one. -/
def ownEntryOn (me : Option Reader) (roster : Roster) : Option RosterMember :=
  me.bind fun me => rosterEntry roster me.userId

/-- The key version of the identity the reader's entry names, if any. -/
def Primitives.mineAt (me : Option Reader) (roster : Roster) : Option Nat :=
  me.bind fun me =>
    (rosterEntry roster me.userId).bind (P.identityNamed me)

/-- What is said of the reader's own entries, and the last one named. -/
structure OwnEntries where
  wrongAt : List Nat
  behindAt : List Nat
  lastOwn : Option Nat
  deriving DecidableEq

/-- The reader's entry on one more roster, judged. -/
def Primitives.judgeOwn
    (me : Option Reader)
    (own : OwnEntries)
    (roster : Roster) :
    OwnEntries :=
  match ownEntryOn me roster with
  | none => own
  | some entry =>
    let mine := P.mineAt me roster
    let newest :=
      (((me.map Reader.identities).getD []).map
        ServedKeys.keyVersion).foldl max 0
    let wrong := mine.all fun version =>
      own.lastOwn.any fun last => version < last
    let behind := mine.any fun version =>
      version < newest && entry.sinceVersion = roster.rosterVersion
    { wrongAt :=
        if wrong then own.wrongAt ++ [roster.rosterVersion]
        else own.wrongAt
      behindAt :=
        if !wrong && behind then own.behindAt ++ [roster.rosterVersion]
        else own.behindAt
      lastOwn := mine.or own.lastOwn }

/-- What the reader's own entries start from: the cache's, if extending. -/
def Primitives.ownStart (me : Option Reader) (extending : Option Cached) :
    OwnEntries where
  wrongAt := (extending.map Cached.ownEntryWrongAt).getD []
  behindAt := []
  lastOwn := extending.bind fun cached => P.mineAt me cached.roster

/-- The rosters this acceptance added. -/
def freshOf (line : Line) (state : State) : List Held :=
  if line.extending.isSome then state.held.drop 1 else state.held

/-- Every roster's digest on the chain, version 1 first. -/
def digestsOf (line : Line) : List String :=
  (line.extending.map Cached.rosterDigests).getD [] ++
    line.path.map Served.digest

/-- The served rosters not on the chain, by version and digest. -/
def deadBranchesOf
    (rosters : OrderedMap String (Served Roster))
    (rosterDigests : List String) :
    List DeadBranch :=
  let off := rosters.values.filter fun served =>
    !rosterDigests.contains served.digest
  ((sortBy Served.digest off).mergeSort fun first second =>
    first.value.rosterVersion ≤ second.value.rosterVersion).map fun served =>
      { version := served.value.rosterVersion
        signerUserId := served.value.signerUserId }

/-- How this acceptance vouched for the family. -/
def checkedOf
    (anchor : Option Anchor)
    (joinMark : Option JoinMark)
    (pairMarks : List PairMark) :
    Option FamilyChecked :=
  if anchor = some .created then
    some { how := .created, rosterVersion := 1 }
  else
    match joinMark, pairMarks with
    | some mark, _ =>
      some { how := .join, rosterVersion := mark.rosterVersion }
    | none, [] => none
    | none, first :: rest =>
      some
        { how := .compared
          rosterVersion :=
            (rest.map PairMark.rosterVersion).foldl min
              first.rosterVersion }

/-- The parts of a chain its cache keeps. -/
def Primitives.keptOf
    (me : Option Reader)
    (line : Line)
    (state : State)
    (latest : Held) :
    Cached where
  rosterDigests := digestsOf line
  statement := latest.statement
  roster := latest.roster
  droppedHolder := latest.droppedHolder
  groupKeys := state.keys
  successions := state.verified
  creatorUserId :=
    match line.extending, state.held with
    | some cached, _ => cached.creatorUserId
    | none, first :: _ => first.roster.signerUserId
    | none, [] => ""
  keyHistory :=
    ((freshOf line state).flatMap fun held => held.roster.members).foldl
      keepKeySet ((line.extending.map Cached.keyHistory).getD .empty)
  areaKeys := state.areas.keys
  areaRoots := state.areas.roots
  retiredAreas := inOrder state.areas.retired
  ownEntryWrongAt :=
    (((freshOf line state).map Held.roster).foldl (P.judgeOwn me)
      (P.ownStart me line.extending)).wrongAt

/-- The accepted chain. -/
def Primitives.bodyOf
    (input : Accepting)
    (rosters : OrderedMap String (Served Roster))
    (line : Line)
    (state : State)
    (latest : Held)
    (groupKeyDigest : String) :
    ChainBody :=
  let kept := P.keptOf input.me line state latest
  { groupId := input.groupId
    kind := latest.roster.kind
    roster := latest.roster
    statement := latest.statement
    rosterDigest := latest.digest
    rosterDigests := kept.rosterDigests
    droppedHolder := latest.droppedHolder
    groupKeyVersion := state.keys.length
    groupKey := state.keys.getLastD ⟨"", ""⟩
    groupKeyDigest
    groupKeys := state.keys
    creatorUserId := kept.creatorUserId
    successionDue :=
      latest.droppedHolder &&
        (state.verifiedAt latest.roster.groupKeyVersion).map
            Verified.lastRosterVersion ≠
          some latest.roster.rosterVersion
    keyHistory := kept.keyHistory
    areaKeys := kept.areaKeys
    areaRoots := kept.areaRoots
    retiredAreas := kept.retiredAreas
    ownEntryWrongAt := kept.ownEntryWrongAt
    ownEntryBehindAt :=
      (((freshOf line state).map Held.roster).foldl (P.judgeOwn input.me)
        (P.ownStart input.me line.extending)).behindAt
    deadBranches := deadBranchesOf rosters kept.rosterDigests
    cache := kept.toCache input.groupId
    checked := checkedOf input.anchor input.joinMark input.pairMarks }

/-- What a device's own parts of the input are, once checked. -/
structure Own where
  cached : Option Cached
  joinMark : Option JoinMark
  pairMarks : List PairMark

/-- A cache checked, when there is one. -/
def Primitives.cachedOf (input : Accepting) :
    Except CryptoError (Option Cached) :=
  match input.cache with
  | none => .ok none
  | some cache =>
    (P.checkCache input.groupId cache input.server).map some

/-- The parts of the input that are the person's own, checked. -/
def Primitives.ownOf (input : Accepting) : Except CryptoError Own := do
  let _ ← uuid (.text input.groupId) "group id"
  let _ ← readEach (checkGroupPin input.groupId) input.pins
  let cached ← P.cachedOf input
  let joinMark ← input.joinMark.elim (.ok none) fun mark =>
    (checkJoinMark mark).map some
  let pairMarks ← readEach checkPairMark input.pairMarks
  refuseIf
    ((input.anchor = some .join ∧ joinMark = none) ∨
      (joinMark ≠ none ∧ input.anchor ≠ some .join ∧ input.anchor ≠ none))
    JOIN_ANCHOR
  refuseIf (pairMarks ≠ [] ∧ input.me.isNone = true) (invalid "pair mark")
  .ok { cached, joinMark, pairMarks }

/-- Whether the version 1 keys are taken on first use. -/
def firstUse (input : Accepting) (marks : Marks) : Bool :=
  marks.first = [] && input.anchor = some .firstUse && input.pairMarks = []

/-- The served version 1 keys: the marks', or vouched for by the anchor. -/
def Primitives.checkFirstKeys (input : Accepting) (marks : Marks) :
    Except CryptoError Unit :=
  match marks.first with
  | mark :: _ =>
    refuseIf
      (P.firstKeysMark input.firstKeys.ed25519PublicKey
          (P.mlDsaDigest input.firstKeys.mlDsaPublicKey) ≠
        mark.digest)
      NOT_CHECKED
  | [] =>
    refuseIf
      (input.anchor = none ∨
        (input.anchor = some .firstUse ∧ firstUse input marks = false))
      NOT_COMPARED

/-- Everything the pass needs: the marks, what is served, the chain. -/
structure Prepared where
  own : Own
  marks : Marks
  rosters : OrderedMap String (Served Roster)
  successions : OrderedMap String (Served GroupKeySuccession)
  line : Line

/-- Steps (1) and (2): the person's marks, then the served chain. -/
def Primitives.prepare (input : Accepting) : Except Thrown Prepared := do
  let own ← throwing (P.ownOf input)
  let marks ← throwing (P.marksOf input.pins own.cached)
  agree marks
  let rosters ← throwing (P.byDigest input.rosters parseRoster)
  throwing
    (forEach
      (fun served =>
        refuseIf (served.value.groupId ≠ input.groupId) ANOTHER_GROUP)
      rosters.values)
  let successions ← throwing
    (P.byDigest input.successions parseGroupSuccession)
  throwing (P.checkFirstKeys input marks)
  let line ← throwing (lineOf own.cached rosters)
  .ok { own, marks, rosters, successions, line }

/-- Step (4): the marks against the verified chain. -/
def Primitives.checkMarks
    (input : Accepting)
    (prepared : Prepared)
    (state : State) :
    Except Thrown Unit := do
  let rosterDigests := digestsOf prepared.line
  checkRosterMarks prepared.marks state rosterDigests
  P.checkJoin prepared.own.joinMark state rosterDigests
  P.checkPairs prepared.own.pairMarks input.me state rosterDigests
  throwing
    (refuseIf
      (firstUse input prepared.marks = true ∧
        (state.held.getLast?.any fun latest =>
          active (ownEntryOn input.me latest.roster)) = false)
      NOT_LET_IN)
  P.checkKeyMarks state

/-- The state the pass of a prepared input starts from. -/
def startState (input : Accepting) (prepared : Prepared) : State :=
  startOf input.groupId input.firstKeys input.mlDsaKeys prepared.marks
    prepared.successions prepared.line.extending

/-- Acceptance: the chain, with the state it leaves, or what it throws. -/
def Primitives.accept (input : Accepting) :
    Except Thrown (ChainBody × State) := do
  let prepared ← P.prepare input
  let state ← P.pass (startState input prepared) prepared.line.path
  P.checkMarks input prepared state
  match state.held.getLast? with
  | none => .error (.refused NO_MEMBER_LIST)
  | some latest => do
      let groupKeyDigest ← throwing
        (P.groupKeyDigest (state.keys.getLastD ⟨"", ""⟩))
      .ok (P.bodyOf input prepared.rosters prepared.line state latest
        groupKeyDigest, state)

/-- A thrown warning is an answer; a refusal is thrown on. -/
def answer : Except Thrown ChainBody → Except CryptoError RosterChain
  | .ok chain => .ok (.accepted chain)
  | .error (.forked fork) => .ok (.fork fork)
  | .error (.refused reason) => .error reason

/-- What a device accepts as a group's history. -/
def Primitives.acceptRosters (input : AcceptInput) :
    Except CryptoError RosterChain :=
  answer ((P.accept input.accepting).map Prod.fst)

end

end HushOS
