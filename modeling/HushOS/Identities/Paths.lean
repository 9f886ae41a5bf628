import HushOS.Identities.Links
import HushOS.Toolkit.Runs

namespace HushOS

open Toolkit

/-!
# The way along a member's links

From a start, verified links are followed key set by key set to the keys
served.  A link leaving the keys reached, at a version no lower, may be
followed; two such links to different keys are a fork.  What verifying a link
answered is remembered, the least recently used forgotten first.
-/

namespace Identities

/-- The keys a member was known by, the ML-DSA one by its digest. -/
structure PinnedKeys where
  keyVersion : Option Int
  encryptionPublicKey : String
  signingPublicKey : String
  mlDsaPublicKeyHash : String
  deriving DecidableEq, Repr

/-- Four public keys of one identity. -/
structure KeySet where
  encryptionPublicKey : String
  signingPublicKey : String
  mlDsaPublicKey : String
  kemPublicKey : String
  deriving DecidableEq, Repr

/-- A field of a served link. -/
inductive Field where
  | text (value : String)
  /-- A safe integer. -/
  | integer (value : Int)
  /-- Undefined, or null. -/
  | nothing
  | other
  deriving DecidableEq, Repr

/-- A link as served: any object with these fields. -/
structure ServedLink where
  oldKeyVersion : Field
  newKeyVersion : Field
  oldEncryptionPublicKey : Field
  oldSigningPublicKey : Field
  oldMlDsaPublicKey : Field
  newEncryptionPublicKey : Field
  newSigningPublicKey : Field
  newMlDsaPublicKey : Field
  newKemPublicKey : Field
  signature : Field
  consent : Field

/-- A field's text. -/
def Field.text? : Field → Option String
  | .text value => some value
  | _ => none

/-- A field's safe integer. -/
def Field.integer? : Field → Option Int
  | .integer value => some value
  | _ => none

/-- A field's text where there may be none. -/
def Field.optional? : Field → Option (Option String)
  | .text value => some (some value)
  | .nothing => some none
  | _ => none

/-- A served link's fields as plain values, when each is what a link carries. -/
def snapshot (served : Option ServedLink) : Option SuccessionLink := do
  let link ← served
  let oldKeyVersion ← link.oldKeyVersion.integer?
  let newKeyVersion ← link.newKeyVersion.integer?
  let oldEncryptionPublicKey ← link.oldEncryptionPublicKey.text?
  let oldSigningPublicKey ← link.oldSigningPublicKey.text?
  let oldMlDsaPublicKey ← link.oldMlDsaPublicKey.text?
  let newEncryptionPublicKey ← link.newEncryptionPublicKey.text?
  let newSigningPublicKey ← link.newSigningPublicKey.text?
  let newMlDsaPublicKey ← link.newMlDsaPublicKey.text?
  let newKemPublicKey ← link.newKemPublicKey.text?
  let signature ← link.signature.text?
  let consent ← link.consent.optional?
  some
    { oldKeyVersion, newKeyVersion, oldEncryptionPublicKey,
      oldSigningPublicKey, oldMlDsaPublicKey, newEncryptionPublicKey,
      newSigningPublicKey, newMlDsaPublicKey, newKemPublicKey, signature,
      consent }

/-- What a walk is asked: from where, to which served keys, along which links. -/
structure Asked where
  userId : String
  start : PinnedKeys
  served : KeySet
  /-- What was served in each link's place, nothing for what is no object. -/
  links : List (Option ServedLink)
  consentUntil : Option PinnedKeys
  memberKeys : List PinnedKeys

/-- What a walk answers. -/
inductive SuccessionPath where
  | path (links : List SuccessionLink)
  | fork
  | stale
  | tooMany
  | none
  deriving DecidableEq

def MAX_SUCCESSION_LINKS : Nat := 64

def MAX_VERIFIED_LINKS : Nat := 4096

/-- A link's new keys. -/
def keysOf (link : SuccessionLink) : KeySet where
  encryptionPublicKey := link.newEncryptionPublicKey
  signingPublicKey := link.newSigningPublicKey
  mlDsaPublicKey := link.newMlDsaPublicKey
  kemPublicKey := link.newKemPublicKey

/-- The links served that read as links, in the order served. -/
def Asked.readable (asked : Asked) : List SuccessionLink :=
  asked.links.filterMap snapshot

section Walk

variable (P : Primitives)

/-- The digest pins keep of an ML-DSA key, none when it is not one. -/
def mlDsaHash (publicKey : String) : Option String :=
  match decode publicKey ML_DSA_PUBLIC_KEY_BYTES with
  | .ok bytes => some (P.keyDigest bytes)
  | .error _ => none

/-- Whether a link's new keys are pinned ones. -/
def leadsTo (link : SuccessionLink) (keys : PinnedKeys) : Bool :=
  link.newEncryptionPublicKey = keys.encryptionPublicKey &&
    link.newSigningPublicKey = keys.signingPublicKey &&
    mlDsaHash P link.newMlDsaPublicKey = some keys.mlDsaPublicKeyHash

/-- Whether two pinned key sets are one. -/
def sameKeys (first second : PinnedKeys) : Bool :=
  first.encryptionPublicKey = second.encryptionPublicKey &&
    first.signingPublicKey = second.signingPublicKey &&
    first.mlDsaPublicKeyHash = second.mlDsaPublicKeyHash

/-- Whether a link's old keys are pinned ones. -/
def leavesSet (link : SuccessionLink) (keys : PinnedKeys) : Bool :=
  link.oldEncryptionPublicKey = keys.encryptionPublicKey &&
    link.oldSigningPublicKey = keys.signingPublicKey &&
    mlDsaHash P link.oldMlDsaPublicKey = some keys.mlDsaPublicKeyHash

/-- Whether a link's old keys are another's new ones. -/
def leavesLink (link at_ : SuccessionLink) : Bool :=
  link.oldEncryptionPublicKey = at_.newEncryptionPublicKey &&
    link.oldSigningPublicKey = at_.newSigningPublicKey &&
    link.oldMlDsaPublicKey = at_.newMlDsaPublicKey

/-- Whether a link goes on from where a walk is, at a version no lower. -/
def continues
    (start : PinnedKeys)
    (at_ : Option SuccessionLink)
    (link : SuccessionLink) :
    Bool :=
  match at_ with
  | some at_ =>
    leavesLink link at_ && at_.newKeyVersion ≤ link.oldKeyVersion
  | none =>
    leavesSet P link start && start.keyVersion.getD 0 ≤ link.oldKeyVersion

/-- Where a walk is, and the way it came. -/
structure Walking where
  /-- The last link followed, none at the start. -/
  at_ : Option SuccessionLink
  /-- Whether consent is still asked of every link. -/
  consenting : Bool
  seen : List KeySet
  path : List SuccessionLink
  /-- Where links were looked for: what goes on from one of these counts. -/
  looked : List (Option SuccessionLink)

/-- A walk at its start. -/
def Asked.begin (asked : Asked) : Walking where
  at_ := none
  consenting := match asked.consentUntil with
    | none => false
    | some until_ => !sameKeys asked.start until_
  seen := []
  path := []
  looked := []

/-- The links that go on from where a walk is, in the order served. -/
def continuing (asked : Asked) (walking : Walking) : List SuccessionLink :=
  asked.readable.filter (continues P asked.start walking.at_)

/-- A walk that looked for links where it is. -/
def Walking.look (walking : Walking) : Walking :=
  { walking with looked := walking.at_ :: walking.looked }

/-- Whether a link counts toward the cap. -/
def counts (asked : Asked) (walking : Walking) (link : SuccessionLink) : Bool :=
  ((asked.start :: asked.memberKeys).any fun keys => leavesSet P link keys) ||
    walking.looked.any fun at_ => continues P asked.start at_ link

/-- How many of the links count. -/
def counted (asked : Asked) (walking : Walking) : Nat :=
  asked.readable.countP (counts P asked walking)

/-- Whether a walk is at the keys served. -/
def atServed (asked : Asked) : Option SuccessionLink → Bool
  | none =>
    asked.start.encryptionPublicKey = asked.served.encryptionPublicKey &&
      asked.start.signingPublicKey = asked.served.signingPublicKey &&
      mlDsaHash P asked.served.mlDsaPublicKey =
        some asked.start.mlDsaPublicKeyHash
  | some at_ => keysOf at_ = asked.served

/-- A walk after following a link. -/
def Walking.follow (walking : Walking) (asked : Asked) (next : SuccessionLink) :
    Walking :=
  { walking with
    at_ := some next
    consenting := match asked.consentUntil with
      | none => walking.consenting
      | some until_ => walking.consenting && !leadsTo P next until_
    seen := walking.seen ++ [keysOf next]
    path := walking.path ++ [next] }

/-- What comes of the links that leave where a walk is and hold. -/
def settle (asked : Asked) (walking : Walking) (leaving : List SuccessionLink) :
    SuccessionPath ⊕ Walking :=
  if atServed P asked walking.at_ then
    .inl (if leaving ≠ [] then
        .stale
      else if walking.at_ = none then
        .none
      else
        .path walking.path)
  else if 1 < (leaving.map keysOf).dedup.length then
    .inl .fork
  else
    match leaving with
    | [] => .inl .none
    | next :: _ =>
      if keysOf next ∈ walking.seen then
        .inl .none
      else
        .inr (walking.follow P asked next)

section Memory

variable {σ : Type} (holds : σ → Bool → SuccessionLink → Bool × σ)

/-- The links that hold, asked one after another, and what is remembered. -/
def holding (consenting : Bool) :
    List SuccessionLink → σ → List SuccessionLink × σ
  | [], memory => ([], memory)
  | link :: rest, memory =>
    let held := holds memory consenting link
    let others := holding consenting rest held.2
    (if held.1 then link :: others.1 else others.1, others.2)

/-- A walk that ended: its answer, where, and what is remembered. -/
structure Ended (σ : Type) where
  answer : SuccessionPath
  walking : Walking
  memory : σ

/-- Walk on, for as many steps as are left. -/
def walkFrom (asked : Asked) : Nat → Walking → σ → Ended σ
  | 0, walking, memory => { answer := .none, walking, memory }
  | steps + 1, walking, memory =>
    if MAX_SUCCESSION_LINKS < counted P asked walking.look then
      { answer := .tooMany, walking := walking.look, memory }
    else
      let leaving := holding holds walking.consenting
        (continuing P asked walking) memory
      match settle P asked walking.look leaving.1 with
      | .inl answer =>
        { answer, walking := walking.look, memory := leaving.2 }
      | .inr next => walkFrom asked steps next leaving.2

/-- The whole walk. -/
def walk (asked : Asked) (memory : σ) : Ended σ :=
  if MAX_SUCCESSION_LINKS < counted P asked asked.begin then
    { answer := .tooMany, walking := asked.begin, memory }
  else
    walkFrom P holds asked (asked.links.length + 1) asked.begin memory

end Memory

/-- Results of verifying, by what was verified, the least recently used first. -/
abbrev Verified := OrderedMap String Bool

/-- A link's fields, in the order they are named. -/
def fields (link : SuccessionLink) : List Json.Scalar :=
  [.integer link.oldKeyVersion, .integer link.newKeyVersion,
    .text link.oldEncryptionPublicKey, .text link.oldSigningPublicKey,
    .text link.oldMlDsaPublicKey, .text link.newEncryptionPublicKey,
    .text link.newSigningPublicKey, .text link.newMlDsaPublicKey,
    .text link.newKemPublicKey, .text link.signature,
    match link.consent with
    | some consent => .text consent
    | none => .null]

/-- What a result is remembered under the hash of. -/
def verifiedOver (userId : String) (consent : Bool) (link : SuccessionLink) :
    Bytes :=
  Utf8.encode (Json.stringify
    (.text userId :: .bool consent :: fields link))

/-- What a result is remembered by. -/
def verifiedKey (userId : String) (consent : Bool) (link : SuccessionLink) :
    String :=
  P.keyDigest (verifiedOver userId consent link)

/-- The oldest results go until no more are left than are kept. -/
def dropOldest (verified : Verified) : Verified where
  entries := verified.entries.drop (verified.size - MAX_VERIFIED_LINKS)
  nodup := verified.nodup.sublist ((List.drop_sublist _ _).map Prod.fst)

/-- Whether a link holds, as remembered, else verified and remembered last. -/
def remembered
    (userId : String)
    (verified : Verified)
    (consent : Bool)
    (link : SuccessionLink) :
    Bool × Verified :=
  let key := verifiedKey P userId consent link
  match verified.get? key with
  | some held => (held, dropOldest ((verified.erase key).set key held))
  | none =>
    let held := verifies P userId consent link
    (held, dropOldest (verified.set key held))

/-- The way along a member's links, over what a caller remembers. -/
def successionPath (asked : Asked) (verified : Verified) : Ended Verified :=
  walk P (remembered P asked.userId) asked verified

end Walk

end Identities

end HushOS
