import HushOS.Acceptance.Cache

namespace HushOS

open Toolkit

/-!
# Judging successions and rosters

Acceptance carries a state from roster to roster.  A served succession is
taken as soon as the roster it is tied to is held (`establishNext`), and the
next roster is judged under the key then current (`rosterRules`).
-/

/-- A statement as the server stores it, with its two signatures. -/
structure SignedGroupStatement where
  statement : Bytes
  signature : GroupSignature
  signerSignature : Bytes
  deriving DecidableEq, Repr

/-- A served statement and every distinct copy of its signatures. -/
structure Served (α : Type) where
  value : α
  statement : Bytes
  digest : String
  copies : List SignedGroupStatement
  deriving DecidableEq, Repr

/-- A roster the chain holds. -/
structure Held where
  roster : Roster
  statement : Bytes
  digest : String
  droppedHolder : Bool
  deriving DecidableEq, Repr

/-- A valid succession waiting for a mark it does not meet. -/
structure Rival where
  side : MarkSide
  key : GroupPublicKey
  deriving DecidableEq, Repr

/--
What acceptance carries from roster to roster.  `verified` holds the
succession out of key `v` at place `v - 1`.  The source also remembers each
candidate's signature verdict; the verdict is a function of what it is
remembered by, so it is computed anew here.
-/
structure State where
  groupId : String
  mlDsaKeys : OrderedMap String String
  keys : List GroupPublicKey
  verified : List Verified
  held : List Held
  candidates : OrderedMap Nat (List (Served GroupKeySuccession))
  keyMarks : OrderedMap Nat MarkSide
  refused : OrderedMap Nat CryptoError
  waiting : OrderedMap Nat (List Rival)
  areas : AreaLedger

/-- The ledger a cache lists, empty without one. -/
def ledgerOf (cached : Option Cached) : AreaLedger :=
  match cached with
  | none => .empty
  | some cached =>
    { keys := cached.areaKeys
      roots := cached.areaRoots
      retired := cached.retiredAreas.toFinset
      commitments := cached.areaKeys.values.flatten.toFinset
      rootCommitments :=
        (cached.areaRoots.values.flatten.filterMap id).toFinset }

/-- The state a cache continues from, or the state before roster 1. -/
def stateOf
    (groupId : String)
    (mlDsaKeys : OrderedMap String String)
    (cached : Option Cached) :
    State where
  groupId := groupId
  mlDsaKeys := mlDsaKeys
  keys := (cached.map Cached.groupKeys).getD []
  verified := (cached.map Cached.successions).getD []
  held :=
    match cached with
    | none => []
    | some cached =>
      [{ roster := cached.roster
         statement := cached.statement
         digest := cached.rosterDigests.getLastD ""
         droppedHolder := cached.droppedHolder }]
  candidates := .empty
  keyMarks := .empty
  refused := .empty
  waiting := .empty
  areas := ledgerOf cached

/-- The verified succession out of a key version, if any. -/
def State.verifiedAt (state : State) (version : Nat) : Option Verified :=
  if version = 0 then none else state.verified[version - 1]?

def NOT_FOLLOWING : CryptoError :=
  ⟨"This roster does not follow the last one."⟩

def REPLACED_KEY : CryptoError :=
  ⟨"This roster was signed by a group key that has been replaced."⟩

def HOLDER_LEFT : CryptoError :=
  ⟨"A member who held the group key left, so the key must be replaced first."⟩

def NOT_HOLDER : CryptoError :=
  ⟨"This was not signed by a member who holds the group key."⟩

def SIGNER_LEFT : CryptoError :=
  ⟨"A member list is signed by a member who stays on it: another holder signs a departure."⟩

def NO_HOLDER : CryptoError :=
  ⟨"A member list keeps an active member who holds the group key."⟩

def NOT_MEMBER : CryptoError :=
  ⟨"This is not signed by the member it names."⟩

def NOT_GROUP_SIGNED : CryptoError :=
  ⟨"This roster is not signed by the group key."⟩

def NO_SUCCESSION : CryptoError :=
  ⟨"A group key succession is missing."⟩

def NOT_BY_OLD_KEY : CryptoError :=
  ⟨"This group key succession is not signed by the key it replaces."⟩

def NOT_TIED : CryptoError :=
  ⟨"This group key succession is not tied to a roster on the member list."⟩

def OUT_OF_ORDER : CryptoError :=
  ⟨"This group key succession is out of order."⟩

def NOT_NEW_KEY : CryptoError :=
  ⟨"This group key succession does not replace the key with a new one."⟩

def MORE_THAN_ONE_SUCCESSION : CryptoError :=
  ⟨"The server served more than one group key succession from one key."⟩

section

variable (P : Primitives)

/-- Whether a statement carries a member's identity signature by a roster. -/
def Primitives.signedByMember
    (authority : Roster)
    (signerUserId : String)
    (signed : SignedGroupStatement)
    (mlDsaKeys : OrderedMap String String) :
    Bool :=
  match rosterEntry authority signerUserId with
  | none => false
  | some entry =>
    match
      decode ((mlDsaKeys.get? entry.mlDsaPublicKeyDigest).getD "")
        ML_DSA_PUBLIC_KEY_BYTES,
      decode entry.signingPublicKey 32 with
    | .ok mlDsaPublicKey, .ok signingPublicKey =>
      P.digest mlDsaPublicKey = entry.mlDsaPublicKeyDigest &&
        P.verifyHybrid signed.statement signed.signerSignature
          { signingPublicKey, mlDsaPublicKey }
    | _, _ => false

/-- The succession from a key version if it holds, otherwise why not. -/
def Primitives.admissibleSuccession
    (state : State)
    (served : Served GroupKeySuccession)
    (oldVersion : Nat) :
    Except CryptoError GroupKeySuccession := do
  let succession := served.value
  let old := state.keys[oldVersion - 1]?
  refuseIf
    (succession.groupId ≠ state.groupId ∨
      (old.any fun old => sameGroupKey old succession.oldKey) = false)
    NOT_BY_OLD_KEY
  refuseIf
    ((state.keys.any fun key => sameGroupKey key succession.newKey) = true)
    NOT_NEW_KEY
  let last := state.held.find? fun held =>
    held.roster.rosterVersion = succession.lastRosterVersion
  match last with
  | none => .error NOT_TIED
  | some last => do
      refuseIf (last.digest ≠ succession.lastRosterDigest) NOT_TIED
      refuseIf
        ((state.verifiedAt (oldVersion - 1)).any (fun into =>
          succession.lastRosterVersion < into.lastRosterVersion) = true)
        OUT_OF_ORDER
      refuseIf
        (activeWith (rosterEntry last.roster succession.signerUserId)
          .members = false)
        NOT_HOLDER
      let byOldKey := served.copies.filter fun copy =>
        P.verifyGroup served.statement copy.signature succession.oldKey
      refuseIf (byOldKey = []) NOT_BY_OLD_KEY
      refuseIf
        (byOldKey.any (fun copy =>
          P.signedByMember last.roster succession.signerUserId copy
            state.mlDsaKeys) = false)
        NOT_MEMBER
      .ok succession

/-- Whether a served succession holds from a key version. -/
def Primitives.isAdmissible
    (state : State)
    (oldVersion : Nat)
    (served : Served GroupKeySuccession) :
    Bool :=
  match P.admissibleSuccession state served oldVersion with
  | .ok _ => true
  | .error _ => false

/-- The served successions from the current key, in their one order. -/
def State.current (state : State) : List (Served GroupKeySuccession) :=
  sortBy Served.digest (state.candidates.listAt state.keys.length)

/-- Why the first of the current successions that do not hold does not. -/
def Primitives.refusal (state : State) : Option CryptoError :=
  state.current.findSome? fun served =>
    match P.admissibleSuccession state served state.keys.length with
    | .ok _ => none
    | .error reason => some reason

/-- A succession that holds now, with the digest of the key it introduces. -/
def Primitives.choice (served : Served GroupKeySuccession) :
    Except CryptoError (Served GroupKeySuccession × String) := do
  let keyDigest ← P.groupKeyDigest served.value.newKey
  .ok (served, keyDigest)

/-- A succession that holds but that the mark does not name. -/
def rivalOf (choice : Served GroupKeySuccession × String) : Rival where
  side :=
    { digest := choice.2
      sources := [.served]
      signerUserId := some choice.1.value.signerUserId }
  key := choice.1.value.newKey

/-- The succession from the current key, or none yet. -/
def Primitives.nextSuccession (state : State) :
    Except CryptoError (State × Option (Served GroupKeySuccession)) := do
  let oldVersion := state.keys.length
  let valid ← readEach P.choice
    (state.current.filter (P.isAdmissible state oldVersion))
  let refusing (state : State) : State :=
    { state with
      refused :=
        state.refused.set oldVersion ((P.refusal state).getD NO_SUCCESSION) }
  match state.keyMarks.get? (oldVersion + 1) with
  | some mark =>
    match valid.find? (fun choice => choice.2 = mark.digest) with
    | some chosen => .ok (state, some chosen.1)
    | none =>
      if valid = [] then
        .ok (refusing state, none)
      else
        .ok
          (refusing
            { state with
              waiting := state.waiting.set oldVersion
                (valid.map rivalOf) },
            none)
  | none =>
    match valid with
    | [] => .ok (refusing state, none)
    | [chosen] => .ok (state, some chosen.1)
    | _ => .error MORE_THAN_ONE_SUCCESSION

/-- The state after taking a succession from the current key. -/
def State.take (state : State) (served : Served GroupKeySuccession) : State :=
  { state with
    verified := state.verified ++
      [{ lastRosterVersion := served.value.lastRosterVersion
         digest := served.digest
         signerUserId := served.value.signerUserId }]
    keys := state.keys ++ [served.value.newKey] }

/-- Take the succession from the current key, if one is chosen. -/
def Primitives.establishNext (state : State) :
    Except CryptoError (State × Bool) := do
  let (state, next) ← P.nextSuccession state
  match next with
  | none => .ok (state, false)
  | some served => .ok (state.take served, true)

/-- Take successions as long as one is chosen, at most `fuel` times. -/
def Primitives.establishUpTo :
    Nat → State → Except CryptoError State
  | 0, state => .ok state
  | fuel + 1, state => do
      let (state, taken) ← P.establishNext state
      if taken then Primitives.establishUpTo fuel state else .ok state

/--
Take successions as long as one is chosen.  Each is from another key version
that candidates are served for, so one more round than these is enough.
-/
def Primitives.establishAll (state : State) : Except CryptoError State :=
  P.establishUpTo (state.candidates.size + 1) state

/-- Whether a roster holds under a rival's key, signed by a holder. -/
def Primitives.holdsUnder
    (state : State)
    (roster : Roster)
    (statement : Bytes)
    (authority : Roster)
    (rival : Rival)
    (copy : SignedGroupStatement) :
    Bool :=
  P.verifyGroup statement copy.signature rival.key &&
    activeWith (rosterEntry authority roster.signerUserId) .members &&
    -- A rival that breaks the departure rules is refused, not a warning.
    active (rosterEntry roster roster.signerUserId) &&
    roster.members.any (fun entry => activeWith (some entry) .members) &&
    P.signedByMember authority roster.signerUserId copy state.mlDsaKeys

/-- A roster that needs a key not reached: the warning, or refused. -/
def Primitives.missingKey
    (state : State)
    (roster : Roster)
    (statement : Bytes)
    (copies : Option (List SignedGroupStatement))
    (authority : Roster) :
    Thrown :=
  let version := state.keys.length
  let refused : Thrown :=
    .refused ((state.refused.get? version).getD NO_SUCCESSION)
  match state.waiting.get? version, state.keyMarks.get? (version + 1),
      copies with
  | some rivals, some mark, some copies =>
    if roster.groupKeyVersion = version + 1 ∧
        (rivals.any fun rival =>
          copies.any
            (P.holdsUnder state roster statement authority rival)) =
          true then
      .forked
        { of := .groupKey
          version := version + 1
          sides := sides (mark :: rivals.map Rival.side) }
    else
      refused
  | _, _, _ => refused

/-- The signatures of a roster: both halves by the key, and its signer's. -/
def Primitives.checkSignatures
    (state : State)
    (roster : Roster)
    (statement : Bytes)
    (copies : List SignedGroupStatement)
    (authority : Roster) :
    Except CryptoError Unit := do
  let groupSigned := copies.filter fun copy =>
    (state.keys[roster.groupKeyVersion - 1]?).any fun key =>
      P.verifyGroup statement copy.signature key
  refuseIf (groupSigned = []) NOT_GROUP_SIGNED
  refuseIf
    (groupSigned.any (fun copy =>
      P.signedByMember authority roster.signerUserId copy
        state.mlDsaKeys) = false)
    NOT_MEMBER

/-- The rules a roster under a key reached must keep. -/
def Primitives.reachedRules
    (state : State)
    (roster : Roster)
    (statement : Bytes)
    (copies : Option (List SignedGroupStatement))
    (previous : Option Held) :
    Except CryptoError Unit := do
  refuseIf
    ((state.verifiedAt roster.groupKeyVersion).any (fun out =>
      out.lastRosterVersion < roster.rosterVersion) = true)
    REPLACED_KEY
  let authority := (previous.map Held.roster).getD roster
  refuseIf
    (activeWith (rosterEntry authority roster.signerUserId) .members = false)
    NOT_HOLDER
  refuseIf (active (rosterEntry roster roster.signerUserId) = false)
    SIGNER_LEFT
  refuseIf
    (roster.members.any (fun entry => activeWith (some entry) .members) =
      false)
    NO_HOLDER
  copies.elim (.ok ()) fun copies =>
    P.checkSignatures state roster statement copies authority
  previous.elim (.ok ()) fun previous => do
    refuseIf
      (previous.droppedHolder = true ∧
        (state.verifiedAt previous.roster.groupKeyVersion).map
            Verified.lastRosterVersion ≠
          some previous.roster.rosterVersion)
      HOLDER_LEFT
    checkEntries previous.roster roster
  checkAreas state.areas (previous.map Held.roster) roster

/-- Every rule a roster must keep at the position after `previous`. -/
def Primitives.rosterRules
    (state : State)
    (roster : Roster)
    (statement : Bytes)
    (copies : Option (List SignedGroupStatement))
    (previous : Option Held) :
    Except Thrown Unit :=
  if (previous.any fun previous => roster.kind ≠ previous.roster.kind) =
      true then
    .error (.refused NOT_FOLLOWING)
  else if state.keys.length < roster.groupKeyVersion then
    .error (P.missingKey state roster statement copies
      ((previous.map Held.roster).getD roster))
  else
    throwing (P.reachedRules state roster statement copies previous)

end

end HushOS
