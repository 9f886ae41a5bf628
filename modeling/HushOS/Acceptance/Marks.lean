import HushOS.Acceptance.Areas

namespace HushOS

open Toolkit List OrderedMap

/-!
# A person's marks

What a person's devices hold of a group (pins, codes compared over another
channel, the cache) marks its history: the history must pass through every
mark.  A conflict between marks names its sides, and is the one hard warning.
-/

/-- What a group pin keeps: first keys, and a roster and group key reached. -/
structure GroupPin where
  firstEd25519PublicKey : String
  firstMlDsaPublicKeyDigest : String
  checkedAt : String
  keyVersion : Nat
  groupKeyDigest : String
  rosterVersion : Nat
  rosterDigest : String
  areas : OrderedMap String Nat

/-- A join code compared, over the roster at a version. -/
structure JoinMark where
  rosterVersion : Nat
  code : List String
  /-- Only a pair mark names a member, and a mark that does is no join mark. -/
  other : Option String := none
  deriving DecidableEq, Repr

/-- A pair code compared with a member, over the roster at a version. -/
structure PairMark where
  rosterVersion : Nat
  other : String
  code : List String
  deriving DecidableEq, Repr

/-- Who holds a side of a conflict. -/
inductive MarkSource where
  | pin
  | cache
  | join
  | pair
  | served
  deriving DecidableEq, Repr

/-- One side of a conflict: a digest, who holds it, its signer when known. -/
structure MarkSide where
  digest : String
  sources : List MarkSource
  signerUserId : Option String
  deriving DecidableEq, Repr

instance : Inhabited MarkSide := ⟨⟨"", [], none⟩⟩

/-- What two sides of a conflict disagree about. -/
inductive ForkOf where
  | roster
  | groupKey
  deriving DecidableEq, Repr

/-- The hard warning: at a version, two digests. -/
structure RosterFork where
  of : ForkOf
  version : Nat
  sides : List MarkSide
  deriving DecidableEq, Repr

/-- What acceptance throws: a refusal, or the warning. -/
inductive Thrown where
  | refused (error : CryptoError)
  | forked (fork : RosterFork)
  deriving DecidableEq, Repr

/-- A check's refusal, thrown. -/
def throwing : Except CryptoError α → Except Thrown α
  | .ok value => .ok value
  | .error reason => .error (.refused reason)

/-- Whether two characters are the digits of a number between limits. -/
def isTwoDigits (tens ones : Char) (least most : Nat) : Bool :=
  tens.isDigit && ones.isDigit &&
    least ≤ 10 * (tens.toNat - 48) + (ones.toNat - 48) &&
    10 * (tens.toNat - 48) + (ones.toNat - 48) ≤ most

/-- Whether a text is a check's time, to the millisecond in UTC. -/
def isCheckTime (text : String) : Bool :=
  match text.toList with
  | [y1, y2, y3, y4, '-', m1, m2, '-', d1, d2, 'T', h1, h2, ':', n1, n2, ':',
      s1, s2, '.', f1, f2, f3, 'Z'] =>
      [y1, y2, y3, y4, f1, f2, f3].all Char.isDigit &&
        isTwoDigits m1 m2 1 12 && isTwoDigits d1 d2 1 31 &&
        isTwoDigits h1 h2 0 23 && isTwoDigits n1 n2 0 59 &&
        isTwoDigits s1 s2 0 59
  | _ => false

/-- A group pin as given, or refused. -/
def checkGroupPin (groupId : String) (pin : GroupPin) :
    Except CryptoError GroupPin := do
  let _ ← uuid (.text groupId) "group id"
  refuseIf (isCheckTime pin.checkedAt = false) (invalid "group pin")
  forEach
    (fun workspaceId =>
      (uuid (.text workspaceId) "workspace id").map fun _ => ())
    pin.areas.keys
  forEach
    (fun version =>
      (integer (.number version) "workspace key version").map fun _ => ())
    pin.areas.values
  let _ ← bytesOf (.text pin.firstEd25519PublicKey) 32 "group key"
  let _ ← digestOf (.text pin.firstMlDsaPublicKeyDigest) "key digest"
  let _ ← integer (.number pin.keyVersion) "group key version"
  let _ ← digestOf (.text pin.groupKeyDigest) "key digest"
  let _ ← integer (.number pin.rosterVersion) "roster version"
  let _ ← digestOf (.text pin.rosterDigest) "roster digest"
  .ok pin

/-- Whether a code is twelve words of three to eight lowercase letters. -/
def twelveWords (code : List String) : Bool :=
  code.length = 12 &&
    code.all fun word =>
      3 ≤ word.toList.length && word.toList.length ≤ 8 &&
        word.toList.all fun char =>
          0x61 ≤ char.toNat && char.toNat ≤ 0x7a

/-- A join mark as given, or refused. -/
def checkJoinMark (mark : JoinMark) : Except CryptoError JoinMark := do
  refuseIf (mark.other.isSome = true ∨ twelveWords mark.code = false)
    (invalid "join mark")
  let rosterVersion ← integer (.number mark.rosterVersion) "join mark"
  .ok { rosterVersion, code := mark.code }

/-- A pair mark as given, or refused. -/
def checkPairMark (mark : PairMark) : Except CryptoError PairMark := do
  refuseIf (twelveWords mark.code = false) (invalid "pair mark")
  let rosterVersion ← integer (.number mark.rosterVersion) "pair mark"
  let other ← uuid (.text mark.other) "user id"
  .ok { rosterVersion, other, code := mark.code }

def JOIN_CODE_DOMAIN : String := "hushos/group/join-code/v1"

def PAIR_CODE_DOMAIN : String := "hushos/group/pair-code/v1"

section Codes

variable (P : Primitives)

/-- What a code is over: a roster, the key it is under, the key's version. -/
def Primitives.codeInput
    (rosterDigest : String)
    (groupKey : GroupPublicKey)
    (groupKeyVersion : Nat) :
    Except CryptoError Bytes := do
  let rosterDigest ← digestOf (.text rosterDigest) "roster digest"
  let rosterBytes ← decode rosterDigest 32
  let keyDigest ← P.groupKeyDigest groupKey
  let keyBytes ← decode keyDigest 32
  let version ← integer (.number groupKeyVersion) "group key version"
  .ok (rosterBytes ++ keyBytes ++ bigEndian64 version)

/-- The join code over a roster, under the group key it is under. -/
def Primitives.joinCode
    (rosterDigest : String)
    (groupKey : GroupPublicKey)
    (groupKeyVersion : Nat) :
    Except CryptoError (List String) := do
  let input ← P.codeInput rosterDigest groupKey groupKeyVersion
  P.wordsOf (Utf8.encode JOIN_CODE_DOMAIN.toList ++ input)

/-- The pair code of two accounts over a roster. -/
def Primitives.pairCodeOf
    (rosterDigest : String)
    (groupKey : GroupPublicKey)
    (groupKeyVersion : Nat)
    (userId otherUserId : String) :
    Except CryptoError (List String) := do
  let userId ← uuid (.text userId) "user id"
  let otherUserId ← uuid (.text otherUserId) "user id"
  refuseIf (userId = otherUserId) ⟨"A pair code is between two members."⟩
  let ids := sortBy id [userId, otherUserId]
  let input ← P.codeInput rosterDigest groupKey groupKeyVersion
  P.wordsOf
    (Utf8.encode PAIR_CODE_DOMAIN.toList ++ input ++
      ids.flatMap fun user => Utf8.encode user.toList)

/-- The digest of an ML-DSA key, nothing when it is not one. -/
def Primitives.mlDsaDigest (publicKey : String) : Option String :=
  match decode publicKey ML_DSA_PUBLIC_KEY_BYTES with
  | .ok bytes => some (P.digest bytes)
  | .error _ => none

/-- How a pin's first keys compare; nothing malformed is any mark's. -/
def Primitives.firstKeysMark
    (ed25519PublicKey : String)
    (mlDsaPublicKeyDigest : Option String) :
    String :=
  match decode ed25519PublicKey 32,
      decode (mlDsaPublicKeyDigest.getD "") 32 with
  | .ok ed25519, .ok mlDsa => P.digest (ed25519 ++ mlDsa)
  | _, _ => ""

end Codes

def MARK_SOURCES : List MarkSource := [.pin, .cache, .join, .pair, .served]

/-- A side merged with the one that has its digest, if any. -/
def addSide (merged : OrderedMap String MarkSide) (side : MarkSide) :
    OrderedMap String MarkSide :=
  match merged.get? side.digest with
  | none => merged.set side.digest side
  | some held =>
    merged.set side.digest
      { held with
        sources := MARK_SOURCES.filter fun source =>
          held.sources.contains source || side.sources.contains source
        signerUserId := held.signerUserId.or side.signerUserId }

/-- The sides of a conflict, merged by digest and sorted by it. -/
def sides (all : List MarkSide) : List MarkSide :=
  sortBy MarkSide.digest (all.foldl addSide .empty).values

/-- The warning when sides name more than one digest. -/
def conflict (of : ForkOf) (version : Nat) (all : List MarkSide) :
    Except Thrown Unit :=
  let merged := sides all
  if 1 < merged.length then
    .error (.forked { of, version, sides := merged })
  else
    .ok ()

@[simp] theorem throwing_eq_ok
    {check : Except CryptoError α}
    {value : α} :
    throwing check = .ok value ↔ check = .ok value := by
  cases check <;> simp [throwing]

theorem checkJoinMark_eq_ok
    {mark checked : JoinMark} :
    checkJoinMark mark = .ok checked ↔
      checked = mark ∧ mark.other = none ∧ twelveWords mark.code = true ∧
        1 ≤ mark.rosterVersion ∧ mark.rosterVersion ≤ maxSafe := by
  obtain ⟨version, code, other⟩ := mark
  simp only [checkJoinMark, bind_eq_ok, exists_unit, refuseIf_eq_ok, not_or,
    integer_eq_ok, Json.Plain.number.injEq, Bool.not_eq_true,
    Option.isSome_eq_false_iff, Option.isNone_iff_eq_none,
    Bool.not_eq_false, Except.ok.injEq]
  constructor
  · rintro ⟨⟨rfl, words⟩, _, ⟨rfl, positive, safe⟩, rfl⟩
    exact ⟨rfl, rfl, words, positive, safe⟩
  · rintro ⟨rfl, rfl, words, positive, safe⟩
    exact ⟨⟨rfl, words⟩, _, ⟨rfl, positive, safe⟩, rfl⟩

theorem checkPairMark_eq_ok
    {mark checked : PairMark} :
    checkPairMark mark = .ok checked ↔
      checked = mark ∧ twelveWords mark.code = true ∧
        isUuid mark.other = true ∧
        1 ≤ mark.rosterVersion ∧ mark.rosterVersion ≤ maxSafe := by
  obtain ⟨version, other, code⟩ := mark
  simp only [checkPairMark, bind_eq_ok, exists_unit, refuseIf_eq_ok,
    uuid_eq_ok, integer_eq_ok, Json.Plain.number.injEq,
    Json.Plain.text.injEq, Bool.not_eq_false, Except.ok.injEq]
  constructor
  · rintro ⟨words, _, ⟨rfl, positive, safe⟩, _, ⟨rfl, shaped⟩, rfl⟩
    exact ⟨rfl, words, shaped, positive, safe⟩
  · rintro ⟨rfl, words, shaped, positive, safe⟩
    exact ⟨words, _, ⟨rfl, positive, safe⟩, _, ⟨rfl, shaped⟩, rfl⟩

theorem mem_keys_addSide
    {merged : OrderedMap String MarkSide}
    {side : MarkSide}
    {digest : String} :
    digest ∈ (addSide merged side).keys ↔
      digest = side.digest ∨ digest ∈ merged.keys := by
  unfold addSide
  split <;> exact mem_keys_set

theorem mem_keys_foldl_addSide
    (all : List MarkSide)
    {merged : OrderedMap String MarkSide}
    {digest : String} :
    digest ∈ (all.foldl addSide merged).keys ↔
      digest ∈ all.map MarkSide.digest ∨ digest ∈ merged.keys := by
  induction all generalizing merged with
  | nil =>
    simp
  | cons side rest inductionHypothesis =>
    rw [foldl_cons, inductionHypothesis, mem_keys_addSide,
      map_cons, mem_cons]
    tauto

/-- There is no conflict exactly when all sides name one digest. -/
theorem conflict_eq_ok
    {of : ForkOf}
    {version : Nat}
    {all : List MarkSide} :
    conflict of version all = .ok () ↔
      ∀ first ∈ all, ∀ second ∈ all, first.digest = second.digest := by
  have counted :
      (sides all).length = (all.foldl addSide .empty).keys.length := by
    simp [sides, OrderedMap.values, OrderedMap.keys]
  have listed {digest : String} :
      digest ∈ (all.foldl addSide .empty).keys ↔
        digest ∈ all.map MarkSide.digest := by
    simp [mem_keys_foldl_addSide]
  have distinct := (all.foldl addSide OrderedMap.empty).keys_nodup
  generalize (all.foldl addSide OrderedMap.empty).keys = digests
    at counted listed distinct
  have shortIff :
      conflict of version all = .ok () ↔ digests.length ≤ 1 := by
    simp only [conflict, counted]
    split
    · next many =>
        simp only [reduceCtorEq, false_iff]
        omega
    · next few =>
        simp only [true_iff]
        omega
  rw [shortIff]
  constructor
  · intro few first firstMember second secondMember
    have firstListed := listed.mpr (mem_map_of_mem firstMember)
    have secondListed := listed.mpr (mem_map_of_mem secondMember)
    rcases digests with _ | ⟨only, _ | _⟩
    · simp at firstListed
    · rw [mem_singleton] at firstListed secondListed
      rw [firstListed, secondListed]
    · simp at few
  · intro agree
    rcases digests with _ | ⟨first, _ | ⟨second, rest⟩⟩
    · simp
    · simp
    · obtain ⟨firstSide, firstMember, firstDigest⟩ :=
        mem_map.mp (listed.mp (by simp : first ∈ _))
      obtain ⟨secondSide, secondMember, secondDigest⟩ :=
        mem_map.mp (listed.mp (by simp : second ∈ _))
      have same : first = second := by
        rw [← firstDigest, ← secondDigest]
        exact agree firstSide firstMember secondSide secondMember
      simp [same] at distinct

end HushOS
