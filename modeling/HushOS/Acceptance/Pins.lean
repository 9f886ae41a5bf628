import HushOS.Acceptance.Toy
import HushOS.Toolkit.Runs

namespace HushOS

open Toolkit List OrderedMap

/-!
# Settling pins

A device's pins of a group are taken at points of its history: a roster, and a
group key in force while that roster was the latest.  A newer pin is merged over
the one held, and the device's guard follows every acceptance.  The guard only
rises, and pins of one history leave the same guard in whatever order they come.
-/

/-- A folder this device opened, under the family it was opened in. -/
structure OpenedArea where
  groupId : String
  workspaceId : String
  version : Nat
  deriving DecidableEq, Repr

/-- What a pin may be saved as over another: merged, not at all, or never. -/
inductive Merged where
  | pin (merged : GroupPin)
  | behind
  | conflict

/-- What an acceptance leaves of the guard. -/
inductive Guarded where
  | pin (guard : GroupPin)
  | covered
  | ahead
  | conflict

def NOT_ONE_OF_THIS_FAMILY : CryptoError :=
  ⟨"This folder is not one of this family’s."⟩

/-- The version areas name for a workspace, nothing being version 0. -/
def versionIn (areas : OrderedMap String Nat) (workspaceId : String) : Nat :=
  (areas.get? workspaceId).getD 0

/-- The areas with one raised to a version, if it is higher. -/
def raiseArea (areas : OrderedMap String Nat) (raised : String × Nat) :
    OrderedMap String Nat :=
  areas.set raised.1 (max (versionIn areas raised.1) raised.2)

/-- A pin's areas and the opened ones, raised over those held. -/
def mergedAreas
    (current : Option GroupPin)
    (next : GroupPin)
    (opened : List OpenedArea) :
    OrderedMap String Nat :=
  let held := (current.map GroupPin.areas).getD .empty
  let named := next.areas.entries.foldl raiseArea held
  (opened.map fun area => (area.workspaceId, area.version)).foldl raiseArea
    named

/-- The earliest words check stands. -/
def mergedCheck (current : Option GroupPin) (next : GroupPin) : String :=
  match current with
  | some held =>
    if Before held.checkedAt next.checkedAt then held.checkedAt
    else next.checkedAt
  | none => next.checkedAt

/-- A pin with its check and areas merged over those held. -/
def mergedPin
    (current : Option GroupPin)
    (next : GroupPin)
    (opened : List OpenedArea) :
    GroupPin :=
  { next with
    checkedAt := mergedCheck current next
    areas := mergedAreas current next opened }

/-- Whether two pins name other first keys, or differ at one version. -/
def disagree (current next : GroupPin) : Bool :=
  current.firstEd25519PublicKey ≠ next.firstEd25519PublicKey ||
    current.firstMlDsaPublicKeyDigest ≠ next.firstMlDsaPublicKeyDigest ||
    current.rosterVersion = next.rosterVersion &&
      current.rosterDigest ≠ next.rosterDigest ||
    current.keyVersion = next.keyVersion &&
      current.groupKeyDigest ≠ next.groupKeyDigest

/-- Whether one pin is ahead on its roster and behind on its group key. -/
def cross (current next : GroupPin) : Bool :=
  next.rosterVersion < current.rosterVersion &&
      current.keyVersion < next.keyVersion ||
    next.keyVersion < current.keyVersion &&
      current.rosterVersion < next.rosterVersion

/-- A pin as it may be saved over the one held. -/
def mergePin
    (groupId : String)
    (current : Option GroupPin)
    (next : GroupPin)
    (opened : List OpenedArea) :
    Except CryptoError Merged := do
  refuseIf (∃ area ∈ opened, area.groupId ≠ groupId) NOT_ONE_OF_THIS_FAMILY
  match current with
  | none => .ok (.pin (mergedPin none next opened))
  | some held =>
    if disagree held next || cross held next then
      .ok .conflict
    else if next.rosterVersion < held.rosterVersion ∨
        next.keyVersion < held.keyVersion then
      .ok .behind
    else
      .ok (.pin (mergedPin (some held) next opened))

/-- Whether saving a pin over another records anything new. -/
def pinAhead (current : Option GroupPin) (next : GroupPin) : Bool :=
  match current with
  | none => true
  | some held =>
    held.rosterVersion < next.rosterVersion ||
      held.keyVersion < next.keyVersion ||
      Before next.checkedAt held.checkedAt ||
      next.areas.entries.any fun area =>
        versionIn held.areas area.1 < area.2

/-- The guard after an acceptance of a chain whose pin is given. -/
def guardAfter
    (groupId : String)
    (guard : Option GroupPin)
    (pin : GroupPin)
    (opened : List OpenedArea) :
    Except CryptoError Guarded := do
  match ← mergePin groupId guard pin opened with
  | .conflict => .ok .conflict
  | .behind => .ok .ahead
  | .pin merged =>
    if pinAhead guard merged then .ok (.pin merged) else .ok .covered

/-- A pin a device brings, with the folders it opened. -/
abbrev BroughtPin : Type := GroupPin × List OpenedArea

/-- The guard kept after a pin is brought: the one answered, or the one held. -/
def settleGuard
    (groupId : String)
    (guard : Option GroupPin)
    (brought : BroughtPin) :
    Option GroupPin :=
  match guardAfter groupId guard brought.1 brought.2 with
  | .ok (.pin settled) => some settled
  | _ => guard

theorem versionIn_raiseArea
    (areas : OrderedMap String Nat)
    (raised : String × Nat)
    (workspaceId : String) :
    versionIn (raiseArea areas raised) workspaceId =
      if workspaceId = raised.1 then
        max (versionIn areas workspaceId) raised.2
      else
        versionIn areas workspaceId := by
  simp only [versionIn, raiseArea, get?_set]
  split
  · next same =>
      simp [same]
  · rfl

theorem versionIn_le_foldl
    (all : List (String × Nat))
    (areas : OrderedMap String Nat)
    (workspaceId : String) :
    versionIn areas workspaceId ≤
      versionIn (all.foldl raiseArea areas) workspaceId := by
  induction all generalizing areas with
  | nil =>
    exact le_rfl
  | cons raised rest inductionHypothesis =>
    refine le_trans ?_ (inductionHypothesis (raiseArea areas raised))
    rw [versionIn_raiseArea]
    split
    · exact le_max_left _ _
    · exact le_rfl

theorem le_versionIn_foldl
    {all : List (String × Nat)}
    {raised : String × Nat}
    (member : raised ∈ all)
    (areas : OrderedMap String Nat) :
    raised.2 ≤ versionIn (all.foldl raiseArea areas) raised.1 := by
  induction all generalizing areas with
  | nil =>
    simp at member
  | cons first rest inductionHypothesis =>
    rcases mem_cons.mp member with rfl | later
    · refine le_trans ?_ (versionIn_le_foldl rest _ _)
      rw [versionIn_raiseArea, if_pos rfl]
      exact le_max_right _ _
    · exact inductionHypothesis later (raiseArea areas first)

variable {areas : OrderedMap String Nat}

theorem versionIn_foldl_of_le
    {all : List (String × Nat)}
    (below : ∀ raised ∈ all, raised.2 ≤ versionIn areas raised.1)
    (workspaceId : String) :
    versionIn (all.foldl raiseArea areas) workspaceId =
      versionIn areas workspaceId := by
  induction all generalizing areas with
  | nil =>
    rfl
  | cons first rest inductionHypothesis =>
    have same : ∀ workspaceId,
        versionIn (raiseArea areas first) workspaceId =
          versionIn areas workspaceId := by
      intro workspaceId
      rw [versionIn_raiseArea]
      split
      · next isFirst =>
          rw [isFirst]
          exact max_eq_left (below first (by simp))
      · rfl
    rw [foldl_cons, inductionHypothesis, same]
    intro raised member
    rw [same]
    exact below raised (mem_cons_of_mem _ member)

theorem versionIn_of_mem
    {area : String × Nat}
    (member : area ∈ areas.entries) :
    versionIn areas area.1 = area.2 := by
  rw [versionIn, get?_eq_some.mpr member]
  rfl

theorem any_passes_iff
    {held : OrderedMap String Nat} :
    (areas.entries.any fun area => versionIn held area.1 < area.2) = false ↔
      ∀ workspaceId, versionIn areas workspaceId ≤
        versionIn held workspaceId := by
  simp only [any_eq_false, decide_eq_true_eq, Nat.not_lt]
  constructor
  · intro passes workspaceId
    cases found : areas.get? workspaceId with
    | none =>
      simp [versionIn, found]
    | some version =>
      have bounded := passes _ (get?_eq_some.mp found)
      simpa [versionIn, found] using bounded
  · intro bounded area member
    rw [← versionIn_of_mem member]
    exact bounded area.1

variable {groupId : String} {next : GroupPin} {opened : List OpenedArea}

/-- A merge gives a pin exactly when guard and pin agree and advance. -/
theorem mergePin_eq_pin
    {current : Option GroupPin}
    {merged : GroupPin} :
    mergePin groupId current next opened = .ok (.pin merged) ↔
      (∀ area ∈ opened, area.groupId = groupId) ∧
        merged = mergedPin current next opened ∧
        ∀ held ∈ current,
          disagree held next = false ∧ cross held next = false ∧
            held.rosterVersion ≤ next.rosterVersion ∧
            held.keyVersion ≤ next.keyVersion := by
  simp only [mergePin, bind_eq_ok, exists_unit, refuseIf_eq_ok, not_exists,
    not_and, not_not]
  refine and_congr_right fun _ => ?_
  cases current with
  | none =>
    simp only [Except.ok.injEq, Merged.pin.injEq, Option.mem_def,
      reduceCtorEq, false_implies, implies_true, and_true]
    exact eq_comm
  | some held =>
    simp only [Option.mem_def, Option.some.injEq, forall_eq',
      Bool.or_eq_true]
    split
    · next bad =>
        rcases bad with bad | bad <;> simp [bad]
    · next good =>
        simp only [not_or, Bool.not_eq_true] at good
        split
        · next behind =>
            simp only [reduceCtorEq, Except.ok.injEq, false_iff, not_and]
            intro _ _ _ roster
            omega
        · next notBehind =>
            simp only [not_or, Nat.not_lt] at notBehind
            simp [good, notBehind, eq_comm]

theorem disagree_eq_false
    {current : GroupPin} :
    disagree current next = false ↔
      current.firstEd25519PublicKey = next.firstEd25519PublicKey ∧
        current.firstMlDsaPublicKeyDigest = next.firstMlDsaPublicKeyDigest ∧
        (current.rosterVersion = next.rosterVersion →
          current.rosterDigest = next.rosterDigest) ∧
        (current.keyVersion = next.keyVersion →
          current.groupKeyDigest = next.groupKeyDigest) := by
  simp [disagree, and_assoc]

theorem cross_eq_false
    {current : GroupPin} :
    cross current next = false ↔
      (next.rosterVersion < current.rosterVersion →
          next.keyVersion ≤ current.keyVersion) ∧
        (next.keyVersion < current.keyVersion →
          next.rosterVersion ≤ current.rosterVersion) := by
  simp [cross]

variable {guard : Option GroupPin} {pin : GroupPin}

theorem guardAfter_eq_pin
    {settled : GroupPin} :
    guardAfter groupId guard pin opened = .ok (.pin settled) ↔
      mergePin groupId guard pin opened = .ok (.pin settled) ∧
        pinAhead guard settled = true := by
  simp only [guardAfter, bind_eq_ok]
  constructor
  · rintro ⟨merged, merging, answered⟩
    cases merged with
    | pin merged =>
      simp only at answered
      split at answered
      · next new =>
          simp only [Except.ok.injEq, Guarded.pin.injEq] at answered
          exact ⟨answered ▸ merging, answered ▸ new⟩
      · simp at answered
    | behind => simp at answered
    | conflict => simp at answered
  · rintro ⟨merging, new⟩
    exact ⟨.pin settled, merging, by simp [new]⟩

theorem guardAfter_eq_covered :
    guardAfter groupId guard pin opened = .ok .covered ↔
      ∃ merged, mergePin groupId guard pin opened = .ok (.pin merged) ∧
        pinAhead guard merged = false := by
  simp only [guardAfter, bind_eq_ok]
  constructor
  · rintro ⟨merged, merging, answered⟩
    cases merged with
    | pin merged =>
      simp only at answered
      split at answered
      · simp at answered
      · next old =>
          exact ⟨merged, merging, by simpa using old⟩
    | behind => simp at answered
    | conflict => simp at answered
  · rintro ⟨merged, merging, old⟩
    exact ⟨.pin merged, merging, by simp [old]⟩

variable {held : GroupPin}

theorem pinAhead_eq_false :
    pinAhead (some held) next = false ↔
      next.rosterVersion ≤ held.rosterVersion ∧
        next.keyVersion ≤ held.keyVersion ∧
        ¬ Before next.checkedAt held.checkedAt ∧
        ∀ workspaceId, versionIn next.areas workspaceId ≤
          versionIn held.areas workspaceId := by
  rw [pinAhead, Bool.or_eq_false_iff, any_passes_iff]
  simp [and_assoc]

/-- The check kept is one of the two, and neither is earlier. -/
structure EarliestCheck (guard : Option GroupPin) (pin settled : GroupPin) :
    Prop where
  either : settled.checkedAt = pin.checkedAt ∨
    ∃ held ∈ guard, settled.checkedAt = held.checkedAt
  notPin : ¬ Before pin.checkedAt settled.checkedAt
  notHeld : ∀ held ∈ guard, ¬ Before held.checkedAt settled.checkedAt

/-- A guard is no lower than another. -/
structure Rises (guard later : Option GroupPin) : Prop where
  rises : ∀ held ∈ guard, ∃ after ∈ later,
    held.rosterVersion ≤ after.rosterVersion ∧
      held.keyVersion ≤ after.keyVersion ∧
      ∀ workspaceId, versionIn held.areas workspaceId ≤
        versionIn after.areas workspaceId

/-- A guard that covers a pin with the folders opened. -/
structure Covers (held pin : GroupPin) (opened : List OpenedArea) : Prop where
  rosterVersion : held.rosterVersion = pin.rosterVersion
  rosterDigest : held.rosterDigest = pin.rosterDigest
  keyVersion : held.keyVersion = pin.keyVersion
  groupKeyDigest : held.groupKeyDigest = pin.groupKeyDigest
  areas : ∀ workspaceId, versionIn pin.areas workspaceId ≤
    versionIn held.areas workspaceId
  opened : ∀ area ∈ opened,
    area.version ≤ versionIn held.areas area.workspaceId
  checkedAt : ¬ Before pin.checkedAt held.checkedAt

/-- The merged pin keeps the earlier of the two checks. -/
theorem earliestCheck_mergedPin
    (guard : Option GroupPin)
    (pin : GroupPin)
    (opened : List OpenedArea) :
    EarliestCheck guard pin (mergedPin guard pin opened) := by
  cases guard with
  | none =>
    exact ⟨.inl rfl, Before.irrefl _, by simp⟩
  | some held =>
    by_cases earlier : Before held.checkedAt pin.checkedAt
    · have kept : (mergedPin (some held) pin opened).checkedAt =
          held.checkedAt := if_pos earlier
      refine ⟨.inr ⟨held, rfl, kept⟩, kept ▸ earlier.not_after, ?_⟩
      rintro other isHeld
      cases isHeld
      exact kept ▸ Before.irrefl _
    · have kept : (mergedPin (some held) pin opened).checkedAt =
          pin.checkedAt := if_neg earlier
      refine ⟨.inl kept, kept ▸ Before.irrefl _, ?_⟩
      rintro other isHeld
      cases isHeld
      exact kept ▸ earlier

theorem le_mergedAreas_held
    (isHeld : held ∈ guard)
    (workspaceId : String) :
    versionIn held.areas workspaceId ≤
      versionIn (mergedAreas guard pin opened) workspaceId := by
  cases isHeld
  exact le_trans (versionIn_le_foldl _ _ _) (versionIn_le_foldl _ _ _)

theorem le_mergedAreas_pin
    (workspaceId : String) :
    versionIn pin.areas workspaceId ≤
      versionIn (mergedAreas guard pin opened) workspaceId := by
  cases found : pin.areas.get? workspaceId with
  | none =>
    simp [versionIn, found]
  | some version =>
    have raised := le_versionIn_foldl (get?_eq_some.mp found)
      ((guard.map GroupPin.areas).getD .empty)
    rw [versionIn, found, Option.getD_some]
    exact le_trans raised (versionIn_le_foldl _ _ _)

theorem le_mergedAreas_opened
    {area : OpenedArea}
    (member : area ∈ opened) :
    area.version ≤
      versionIn (mergedAreas guard pin opened) area.workspaceId :=
  le_versionIn_foldl
    (mem_map_of_mem (f := fun area => (area.workspaceId, area.version))
      member) _

/-- A pin that is not ahead merges to the guard's own areas. -/
theorem versionIn_mergedAreas_of_le
    (areas : ∀ workspaceId, versionIn pin.areas workspaceId ≤
      versionIn held.areas workspaceId)
    (reached : ∀ area ∈ opened,
      area.version ≤ versionIn held.areas area.workspaceId)
    (workspaceId : String) :
    versionIn (mergedAreas (some held) pin opened) workspaceId =
      versionIn held.areas workspaceId := by
  have named : ∀ workspaceId,
      versionIn (pin.areas.entries.foldl raiseArea held.areas) workspaceId =
        versionIn held.areas workspaceId := by
    refine versionIn_foldl_of_le fun raised member => ?_
    rw [← versionIn_of_mem member]
    exact areas raised.1
  rw [mergedAreas]
  simp only [Option.map_some, Option.getD_some]
  rw [versionIn_foldl_of_le, named]
  intro raised member
  obtain ⟨area, isArea, rfl⟩ := mem_map.mp member
  rw [named]
  exact reached area isArea

/-- What settling one pin over a guard answers. -/
structure SettlesOnce
    (groupId : String)
    (guard : Option GroupPin)
    (pin : GroupPin)
    (opened : List OpenedArea) : Prop where
  rises : ∀ {settled : GroupPin},
    guardAfter groupId guard pin opened = .ok (.pin settled) →
      Rises guard (some settled)
  earliest : ∀ {settled : GroupPin},
    guardAfter groupId guard pin opened = .ok (.pin settled) →
      EarliestCheck guard pin settled
  once : ∀ {settled : GroupPin},
    guardAfter groupId guard pin opened = .ok (.pin settled) →
      guardAfter groupId (some settled) pin opened = .ok .covered
  covers : guardAfter groupId guard pin opened = .ok .covered →
    ∃ held ∈ guard, Covers held pin opened

/-- Merging the same pin into its own result settles at once. -/
theorem mergePin_again
    {settled : GroupPin}
    (merging : mergePin groupId guard pin opened = .ok (.pin settled)) :
    mergePin groupId (some settled) pin opened =
        .ok (.pin (mergedPin (some settled) pin opened)) ∧
      pinAhead (some settled) (mergedPin (some settled) pin opened) =
        false := by
  obtain ⟨ofFamily, rfl, _⟩ := mergePin_eq_pin.mp merging
  constructor
  · refine mergePin_eq_pin.mpr ⟨ofFamily, rfl, ?_⟩
    rintro held isHeld
    cases isHeld
    exact ⟨by simp [disagree, mergedPin], by simp [cross, mergedPin],
      le_rfl, le_rfl⟩
  · have earliest := earliestCheck_mergedPin guard pin opened
    have again :=
      earliestCheck_mergedPin (some (mergedPin guard pin opened)) pin opened
    refine pinAhead_eq_false.mpr ⟨le_rfl, le_rfl, ?_, ?_⟩
    · rcases again.either with isPin | ⟨held, isHeld, isHeldCheck⟩
      · rw [isPin]
        exact earliest.notPin
      · cases isHeld
        rw [isHeldCheck]
        exact Before.irrefl _
    · intro workspaceId
      refine le_of_eq (versionIn_mergedAreas_of_le ?_ ?_ workspaceId)
      · exact fun workspaceId => le_mergedAreas_pin workspaceId
      · exact fun area member => le_mergedAreas_opened member

/-- A guard settles after one merge of any pin. -/
theorem settlesOnce
    (groupId : String)
    (guard : Option GroupPin)
    (pin : GroupPin)
    (opened : List OpenedArea) :
    SettlesOnce groupId guard pin opened where
  rises := by
    intro settled answered
    obtain ⟨merging, _⟩ := guardAfter_eq_pin.mp answered
    obtain ⟨_, rfl, notPast⟩ := mergePin_eq_pin.mp merging
    refine ⟨fun held isHeld => ⟨_, rfl, ?_⟩⟩
    obtain ⟨_, _, roster, key⟩ := notPast held isHeld
    exact ⟨roster, key, fun workspaceId =>
      le_mergedAreas_held isHeld workspaceId⟩
  earliest := by
    intro settled answered
    obtain ⟨merging, _⟩ := guardAfter_eq_pin.mp answered
    obtain ⟨_, rfl, _⟩ := mergePin_eq_pin.mp merging
    exact earliestCheck_mergedPin guard pin opened
  once := by
    intro settled answered
    obtain ⟨merging, _⟩ := guardAfter_eq_pin.mp answered
    exact guardAfter_eq_covered.mpr ⟨_, mergePin_again merging⟩
  covers := by
    intro answered
    obtain ⟨merged, merging, old⟩ := guardAfter_eq_covered.mp answered
    obtain ⟨_, rfl, notPast⟩ := mergePin_eq_pin.mp merging
    cases guard with
    | none =>
      simp [pinAhead] at old
    | some held =>
      obtain ⟨agrees, _, roster, key⟩ := notPast held rfl
      obtain ⟨_, _, rosterDigest, keyDigest⟩ :=
        disagree_eq_false.mp agrees
      obtain ⟨rosterBack, keyBack, check, areas⟩ :=
        pinAhead_eq_false.mp old
      have sameRoster : held.rosterVersion = pin.rosterVersion :=
        le_antisymm roster rosterBack
      have sameKey : held.keyVersion = pin.keyVersion :=
        le_antisymm key keyBack
      exact ⟨held, rfl, {
        rosterVersion := sameRoster
        rosterDigest := rosterDigest sameRoster
        keyVersion := sameKey
        groupKeyDigest := keyDigest sameKey
        areas := fun workspaceId =>
          le_trans (le_mergedAreas_pin workspaceId) (areas workspaceId)
        opened := fun area member =>
          le_trans (le_mergedAreas_opened member) (areas area.workspaceId)
        checkedAt := by
          intro earlier
          have kept : (mergedPin (some held) pin opened).checkedAt =
              pin.checkedAt := if_neg earlier.not_after
          exact check (kept ▸ earlier) }⟩

/-- The rosters a chain's successions are tied to. -/
def ChainBody.ties (chain : ChainBody) : List Nat :=
  chain.cache.successions.map Verified.lastRosterVersion

/--
A pin taken at a point of a chain's history: it names the chain's first keys, a
roster of the chain, and a group key the chain had while that roster was its
latest.
-/
structure Primitives.PinOf
    (P : Primitives)
    (chain : ChainBody)
    (pin : GroupPin) : Prop where
  firstKey : ∃ first ∈ chain.groupKeys.head?,
    first.ed25519PublicKey = pin.firstEd25519PublicKey ∧
      P.mlDsaDigest first.mlDsaPublicKey =
        some pin.firstMlDsaPublicKeyDigest
  roster : 1 ≤ pin.rosterVersion ∧
    chain.rosterDigests[pin.rosterVersion - 1]? = some pin.rosterDigest
  key : 1 ≤ pin.keyVersion ∧
    ∃ key ∈ chain.groupKeys[pin.keyVersion - 1]?,
      P.groupKeyDigest key = .ok pin.groupKeyDigest
  reached : keyAt chain.ties pin.rosterVersion ≤ pin.keyVersion
  notPast : pin.keyVersion ≤ keyAt chain.ties (pin.rosterVersion + 1)

def NOT_ON_LIST : CryptoError :=
  ⟨"This pin is not on the accepted member list."⟩

/-- The pin to write after an accepted chain, over the pins already on it. -/
def Primitives.pinAfter
    (P : Primitives)
    (pins : List GroupPin)
    (chain : ChainBody)
    (checkedAt : String) : Except CryptoError GroupPin := do
  refuseIf (isCheckTime checkedAt = false) (invalid "group pin")
  forEach
    (fun pin => do
      let pin ← checkGroupPin chain.groupId pin
      refuseIf
        (chain.rosterDigests[pin.rosterVersion - 1]? ≠ some pin.rosterDigest)
        NOT_ON_LIST)
    pins
  let first := chain.groupKeys.headD ⟨"", ""⟩
  .ok
    { firstEd25519PublicKey := first.ed25519PublicKey
      firstMlDsaPublicKeyDigest :=
        (P.mlDsaDigest first.mlDsaPublicKey).getD ""
      checkedAt :=
        (sortBy id (pins.map GroupPin.checkedAt)).head?.getD checkedAt
      keyVersion := chain.groupKeyVersion
      groupKeyDigest := chain.groupKeyDigest
      rosterVersion := chain.roster.rosterVersion
      rosterDigest := chain.rosterDigest
      areas := (pins.flatMap fun pin => pin.areas.entries).foldl raiseArea
        .empty }

/-- The pin written after an accepted chain is one of its history. -/
theorem Standing.pinAfter
    {P : Primitives}
    {chain : ChainBody}
    {history : List Held}
    (standing : Standing P chain history)
    {pins : List GroupPin}
    {checkedAt : String}
    {pin : GroupPin}
    (made : P.pinAfter pins chain checkedAt = .ok pin) :
    P.PinOf chain pin := by
  simp only [Primitives.pinAfter, bind_eq_ok, Except.ok.injEq] at made
  obtain ⟨_, _, _, _, rfl⟩ := made
  have ties : chain.ties.length + 1 = chain.groupKeys.length := by
    rw [ChainBody.ties, length_map]
    exact standing.holds.aligned
  have keyVersion := standing.keyVersion
  have version : chain.roster.rosterVersion = chain.rosterDigests.length :=
    standing.holds.version
  obtain ⟨first, rest, keys⟩ := exists_cons_of_length_eq_add_one ties.symm
  have last : chain.rosterDigests.getLast? = some chain.rosterDigest := by
    rw [← standing.digests, getLast?_map, standing.latest]
    rfl
  have isKey : chain.groupKeys[chain.groupKeyVersion - 1]? =
      some chain.groupKey := by
    rw [keyVersion, ← getLast?_eq_getElem?, standing.key, keys,
      getLastD_eq_getLast?, getLast?_cons]
    rfl
  have digest : P.mlDsaDigest first.mlDsaPublicKey =
      some ((P.mlDsaDigest first.mlDsaPublicKey).getD "") := by
    have valid := standing.holds.keys first
      (show first ∈ chain.groupKeys by simp [keys])
    obtain ⟨bytes, same, nonempty, length⟩ :=
      isBytesOf_iff.mp valid.mlDsaPublicKey
    rw [Primitives.mlDsaDigest, decode, same,
      Base64url.decode_encode nonempty]
    simp [length]
  have passed : keyAt chain.ties (chain.roster.rosterVersion + 1) =
      chain.groupKeyVersion := by
    have all : chain.ties.countP
        (fun tie => tie < chain.roster.rosterVersion + 1) =
        chain.ties.length := by
      refine countP_eq_length.mpr fun tie member => ?_
      obtain ⟨verified, listed, rfl⟩ := mem_map.mp member
      have within := standing.holds.ties_le verified listed
      exact decide_eq_true (Nat.lt_succ_of_le (version ▸ within))
    rw [keyAt, all]
    omega
  exact {
    firstKey := ⟨first, by simp [keys], by simp [keys], by simpa [keys] using digest⟩
    roster := by
      refine ⟨?_, ?_⟩
      · show 1 ≤ chain.roster.rosterVersion
        rw [version]
        exact length_pos_iff.mpr fun empty => by simp [empty] at last
      · show chain.rosterDigests[chain.roster.rosterVersion - 1]? = _
        rw [version, ← getLast?_eq_getElem?, last]
    key := ⟨by show 1 ≤ chain.groupKeyVersion; omega, chain.groupKey, isKey,
      standing.keyDigest⟩
    reached := passed ▸ keyAt_mono chain.ties (Nat.le_succ _)
    notPast := passed.ge }

/-- The roster and group key a guard reached, with their digests. -/
def GroupPin.reach (pin : GroupPin) : (Nat × String) × Nat × String :=
  ((pin.rosterVersion, pin.rosterDigest), pin.keyVersion, pin.groupKeyDigest)

section

variable {P : Primitives}

namespace Primitives.PinOf

variable {chain : ChainBody} {first second : GroupPin}

/-- Two pins of one chain never disagree. -/
theorem agree
    (firstOf : P.PinOf chain first)
    (secondOf : P.PinOf chain second) :
    disagree first second = false := by
  refine disagree_eq_false.mpr ⟨?_, ?_, ?_, ?_⟩
  · obtain ⟨firstKey, isFirst, ed25519, _⟩ := firstOf.firstKey
    obtain ⟨secondKey, isSecond, otherEd25519, _⟩ := secondOf.firstKey
    cases Option.mem_unique isFirst isSecond
    rw [← ed25519, ← otherEd25519]
  · obtain ⟨firstKey, isFirst, _, mlDsa⟩ := firstOf.firstKey
    obtain ⟨secondKey, isSecond, _, otherMlDsa⟩ := secondOf.firstKey
    cases Option.mem_unique isFirst isSecond
    rw [mlDsa] at otherMlDsa
    exact Option.some.inj otherMlDsa
  · intro same
    have firstDigest := firstOf.roster.2
    rw [same, secondOf.roster.2] at firstDigest
    exact (Option.some.inj firstDigest).symm
  · intro same
    obtain ⟨_, firstKey, isFirst, firstDigest⟩ := firstOf.key
    obtain ⟨_, secondKey, isSecond, secondDigest⟩ := secondOf.key
    rw [same] at isFirst
    cases Option.mem_unique isFirst isSecond
    rw [firstDigest] at secondDigest
    exact Except.ok.inj secondDigest

theorem key_mono
    (firstOf : P.PinOf chain first)
    (secondOf : P.PinOf chain second)
    (later : first.rosterVersion < second.rosterVersion) :
    first.keyVersion ≤ second.keyVersion :=
  calc first.keyVersion
      ≤ keyAt chain.ties (first.rosterVersion + 1) := firstOf.notPast
    _ ≤ keyAt chain.ties second.rosterVersion := keyAt_mono _ later
    _ ≤ second.keyVersion := secondOf.reached

theorem uncrossed
    (firstOf : P.PinOf chain first)
    (secondOf : P.PinOf chain second) :
    cross first second = false := by
  refine cross_eq_false.mpr ⟨secondOf.key_mono firstOf, fun keyBack => ?_⟩
  by_contra later
  have ordered := firstOf.key_mono secondOf (by omega)
  omega

theorem merged
    (pinOf : P.PinOf chain second)
    (guard : Option GroupPin)
    (opened : List OpenedArea) :
    P.PinOf chain (mergedPin guard second opened) :=
  ⟨pinOf.firstKey, pinOf.roster, pinOf.key, pinOf.reached, pinOf.notPast⟩

theorem reach_eq
    (firstOf : P.PinOf chain first)
    (secondOf : P.PinOf chain second)
    (roster : first.rosterVersion = second.rosterVersion)
    (key : first.keyVersion = second.keyVersion) :
    first.reach = second.reach := by
  obtain ⟨_, _, rosterDigest, keyDigest⟩ :=
    disagree_eq_false.mp (firstOf.agree secondOf)
  rw [GroupPin.reach, GroupPin.reach, roster, key, rosterDigest roster,
    keyDigest key]

end Primitives.PinOf

theorem Standing.length_groupKeys
    {chain : ChainBody}
    {history : List Held}
    (standing : Standing P chain history) :
    chain.groupKeys.length = chain.ties.length + 1 := by
  rw [ChainBody.ties, length_map]
  exact standing.holds.aligned.symm

/-- A guard and a pin brought are of one history. -/
structure Primitives.BroughtOf
    (P : Primitives)
    (chain : ChainBody)
    (brought : BroughtPin) : Prop where
  pinOf : P.PinOf chain brought.1
  ofFamily : ∀ area ∈ brought.2, area.groupId = chain.groupId

/-- The guard is a pin of the chain's history, if there is one. -/
def Primitives.GuardOf (P : Primitives) (chain : ChainBody)
    (guard : Option GroupPin) : Prop :=
  ∀ held ∈ guard, P.PinOf chain held

/-- A guard has reached a pin's roster and group key. -/
def Reached (guard : Option GroupPin) (pin : GroupPin) : Prop :=
  ∃ held ∈ guard, pin.rosterVersion ≤ held.rosterVersion ∧
    pin.keyVersion ≤ held.keyVersion

/-- What one pin of a history does to a guard of it. -/
structure SettledBy
    (groupId : String)
    (guard : Option GroupPin)
    (brought : BroughtPin) : Prop where
  answered : ∃ answer,
    guardAfter groupId guard brought.1 brought.2 = .ok answer ∧
      answer ≠ .conflict
  rises : Rises guard (settleGuard groupId guard brought)

theorem Rises.refl (guard : Option GroupPin) : Rises guard guard :=
  ⟨fun held isHeld => ⟨held, isHeld, le_rfl, le_rfl, fun _ => le_rfl⟩⟩

variable {guard later : Option GroupPin}

theorem Reached.rise
    {pin : GroupPin}
    (reached : Reached guard pin)
    (rises : Rises guard later) :
    Reached later pin := by
  obtain ⟨held, isHeld, roster, key⟩ := reached
  obtain ⟨after, isAfter, rosterRises, keyRises, _⟩ :=
    rises.rises held isHeld
  exact ⟨after, isAfter, le_trans roster rosterRises, le_trans key keyRises⟩

/-- What a pin of a history leaves of a guard of it. -/
structure SettledOf
    (P : Primitives)
    (chain : ChainBody)
    (guard : Option GroupPin)
    (brought : BroughtPin)
    (later : Option GroupPin) : Prop where
  settled : SettledBy chain.groupId guard brought
  guardOf : P.GuardOf chain later
  reached : Reached later brought.1
  moved : later.map GroupPin.reach = some brought.1.reach ∨ later = guard

/-- A merge of a guard and a pin of one chain is again of the chain. -/
theorem Primitives.BroughtOf.settleMerged
    {chain : ChainBody}
    {brought : BroughtPin}
    (guardOf : P.GuardOf chain guard)
    (broughtOf : P.BroughtOf chain brought)
    (merging : mergePin chain.groupId guard brought.1 brought.2 =
      .ok (.pin (mergedPin guard brought.1 brought.2))) :
    SettledOf P chain guard brought
      (settleGuard chain.groupId guard brought) := by
  have once := settlesOnce chain.groupId guard brought.1 brought.2
  cases new : pinAhead guard (mergedPin guard brought.1 brought.2) with
  | true =>
    have answered := guardAfter_eq_pin.mpr ⟨merging, new⟩
    have kept : settleGuard chain.groupId guard brought =
        some (mergedPin guard brought.1 brought.2) := by
      rw [settleGuard, answered]
    refine ⟨⟨⟨_, answered, by simp⟩, kept ▸ once.rises answered⟩, ?_, ?_, ?_⟩
    · rw [kept]
      rintro held isHeld
      cases isHeld
      exact broughtOf.pinOf.merged _ _
    · rw [kept]
      exact ⟨_, rfl, le_rfl, le_rfl⟩
    · rw [kept]
      exact .inl rfl
  | false =>
    have answered := guardAfter_eq_covered.mpr ⟨_, merging, new⟩
    have kept : settleGuard chain.groupId guard brought = guard := by
      rw [settleGuard, answered]
    obtain ⟨held, isHeld, covers⟩ := once.covers answered
    refine ⟨⟨⟨_, answered, by simp⟩, ?_⟩, ?_, ?_, .inr kept⟩
    · rw [kept]
      exact Rises.refl guard
    · rw [kept]
      exact guardOf
    · rw [kept]
      exact ⟨held, isHeld, covers.rosterVersion.ge, covers.keyVersion.ge⟩

/-- Settling a brought pin against its chain's guard succeeds. -/
theorem Primitives.BroughtOf.settle
    {chain : ChainBody}
    {brought : BroughtPin}
    (guardOf : P.GuardOf chain guard)
    (broughtOf : P.BroughtOf chain brought) :
    SettledOf P chain guard brought
      (settleGuard chain.groupId guard brought) := by
  cases guard with
  | none =>
    refine broughtOf.settleMerged guardOf (mergePin_eq_pin.mpr
      ⟨broughtOf.ofFamily, rfl, by simp⟩)
  | some held =>
    have heldOf := guardOf held rfl
    have agrees := heldOf.agree broughtOf.pinOf
    have uncrossed := heldOf.uncrossed broughtOf.pinOf
    by_cases behind : brought.1.rosterVersion < held.rosterVersion ∨
        brought.1.keyVersion < held.keyVersion
    · have ofFamily : ¬ ∃ area ∈ brought.2,
          area.groupId ≠ chain.groupId := by
        simpa using broughtOf.ofFamily
      have answered : guardAfter chain.groupId (some held) brought.1
          brought.2 = .ok .ahead := by
        simp [guardAfter, mergePin, refuseIf, ofFamily, agrees, uncrossed,
          behind]
      have kept : settleGuard chain.groupId (some held) brought =
          some held := by
        rw [settleGuard, answered]
      obtain ⟨rosterBack, keyBack⟩ := cross_eq_false.mp uncrossed
      refine ⟨⟨⟨_, answered, by simp⟩, ?_⟩, ?_, ?_, .inr kept⟩
      · rw [kept]
        exact Rises.refl _
      · rw [kept]
        exact guardOf
      rw [kept]
      refine ⟨held, rfl, ?_, ?_⟩
      · rcases behind with roster | key
        · exact roster.le
        · exact keyBack key
      · rcases behind with roster | key
        · exact rosterBack roster
        · exact key.le
    · simp only [not_or, Nat.not_lt] at behind
      refine broughtOf.settleMerged guardOf (mergePin_eq_pin.mpr
        ⟨broughtOf.ofFamily, rfl, ?_⟩)
      rintro other isHeld
      cases isHeld
      exact ⟨agrees, uncrossed, behind.1, behind.2⟩

/-- What a run of pins of a history leaves of a guard of it. -/
structure SettledRun
    (P : Primitives)
    (chain : ChainBody)
    (guard : Option GroupPin)
    (brought : List BroughtPin)
    (later : Option GroupPin) : Prop where
  each : Runs.Each (settleGuard chain.groupId)
    (SettledBy chain.groupId) guard brought
  guardOf : P.GuardOf chain later
  rises : Rises guard later
  reached : ∀ pin ∈ brought, Reached later pin.1
  moved : later = guard ∨
    ∃ pin ∈ brought, later.map GroupPin.reach = some pin.1.reach

theorem Rises.trans
    {between : Option GroupPin}
    (first : Rises guard between)
    (second : Rises between later) :
    Rises guard later := by
  refine ⟨fun held isHeld => ?_⟩
  obtain ⟨middle, isMiddle, roster, key, areas⟩ := first.rises held isHeld
  obtain ⟨after, isAfter, rosterRises, keyRises, areasRise⟩ :=
    second.rises middle isMiddle
  exact ⟨after, isAfter, le_trans roster rosterRises, le_trans key keyRises,
    fun workspaceId => le_trans (areas workspaceId) (areasRise workspaceId)⟩

/-- Settling brought pins in turn ends with a guard of the chain. -/
theorem Primitives.settledRun
    {chain : ChainBody}
    {brought : List BroughtPin}
    (guardOf : P.GuardOf chain guard)
    (broughtOf : ∀ pin ∈ brought, P.BroughtOf chain pin) :
    SettledRun P chain guard brought
      (Runs.run (settleGuard chain.groupId) guard brought) := by
  induction brought generalizing guard with
  | nil =>
    exact ⟨trivial, guardOf, Rises.refl guard, by simp, .inl rfl⟩
  | cons first rest inductionHypothesis =>
    have settled := (broughtOf first (by simp)).settle guardOf
    have onward := inductionHypothesis settled.guardOf
      fun pin member => broughtOf pin (mem_cons_of_mem _ member)
    refine ⟨⟨settled.settled, onward.each⟩, onward.guardOf,
      settled.settled.rises.trans onward.rises, ?_, ?_⟩
    · intro pin member
      rcases mem_cons.mp member with rfl | later
      · exact settled.reached.rise onward.rises
      · exact onward.reached pin later
    · rcases onward.moved with still | ⟨pin, member, moved⟩
      · rcases settled.moved with moved | unmoved
        · exact .inr ⟨first, by simp, still ▸ moved⟩
        · exact .inl (still.trans unmoved)
      · exact .inr ⟨pin, mem_cons_of_mem _ member, moved⟩

/-- A guard is reached by every run that is brought its pins too. -/
theorem SettledRun.reachedBy
    {chain : ChainBody}
    {other : Option GroupPin}
    {brought others : List BroughtPin}
    (settled : SettledRun P chain guard brought later)
    (otherSettled : SettledRun P chain guard others other)
    (among : ∀ pin ∈ brought, pin.1 ∈ others.map Prod.fst)
    {held : GroupPin}
    (isHeld : held ∈ later) :
    Reached other held := by
  rcases settled.moved with rfl | ⟨pin, member, moved⟩
  · obtain ⟨after, isAfter, roster, key, _⟩ :=
      otherSettled.rises.rises held isHeld
    exact ⟨after, isAfter, roster, key⟩
  · obtain ⟨copy, isCopy, same⟩ := mem_map.mp (among pin member)
    cases isHeld
    simp only [GroupPin.reach, Option.map_some, Option.some.injEq,
      Prod.mk.injEq] at moved
    obtain ⟨after, isAfter, roster, key⟩ :=
      otherSettled.reached copy isCopy
    rw [same, ← moved.1.1] at roster
    rw [same, ← moved.2.1] at key
    exact ⟨after, isAfter, roster, key⟩

/-- The order in which pins are brought does not change the reach. -/
theorem SettledRun.reach_eq
    {chain : ChainBody}
    {guard later other : Option GroupPin}
    {brought others : List BroughtPin}
    (settled : SettledRun P chain guard brought later)
    (otherSettled : SettledRun P chain guard others other)
    (among : ∀ pin, pin ∈ brought.map Prod.fst ↔ pin ∈ others.map Prod.fst) :
    later.map GroupPin.reach = other.map GroupPin.reach := by
  have forth : ∀ held ∈ later, Reached other held := fun held isHeld =>
    settled.reachedBy otherSettled
      (fun pin member => (among pin.1).mp (mem_map_of_mem member)) isHeld
  have back : ∀ held ∈ other, Reached later held := fun held isHeld =>
    otherSettled.reachedBy settled
      (fun pin member => (among pin.1).mpr (mem_map_of_mem member)) isHeld
  cases later with
  | none =>
    cases other with
    | none => rfl
    | some held =>
      obtain ⟨_, isLater, _⟩ := back held rfl
      cases isLater
  | some held =>
    obtain ⟨after, isAfter, roster, key⟩ := forth held rfl
    cases isAfter
    obtain ⟨again, isAgain, rosterBack, keyBack⟩ := back after rfl
    cases isAgain
    rw [Option.map_some, Option.map_some]
    exact congrArg some ((settled.guardOf held rfl).reach_eq
      (otherSettled.guardOf after rfl) (le_antisymm roster rosterBack)
      (le_antisymm key keyBack))

/--
Settling raises the guard, keeps the earliest check, is idempotent, and says
nothing new only of what the guard covers; and over pins of one history no
order of them ever conflicts, lowers the guard, or leaves it at another point.
-/
theorem Primitives.guard_settles (P : Primitives) :
    (∀ groupId guard pin opened, SettlesOnce groupId guard pin opened) ∧
      ∀ (chain : ChainBody) (guard : Option GroupPin)
        (brought others : List BroughtPin),
        P.GuardOf chain guard →
        (∀ pin ∈ brought ++ others, P.BroughtOf chain pin) →
        (∀ pin, pin ∈ brought.map Prod.fst ↔ pin ∈ others.map Prod.fst) →
          Runs.Each (settleGuard chain.groupId)
              (SettledBy chain.groupId) guard brought ∧
            (Runs.run (settleGuard chain.groupId) guard brought).map
                GroupPin.reach =
              (Runs.run (settleGuard chain.groupId) guard others).map
                GroupPin.reach := by
  refine ⟨settlesOnce, ?_⟩
  intro chain guard brought others guardOf broughtOf among
  have settled := P.settledRun guardOf
    fun pin member => broughtOf pin (mem_append_left _ member)
  have otherSettled := P.settledRun guardOf
    fun pin member => broughtOf pin (mem_append_right _ member)
  exact ⟨settled.each, settled.reach_eq otherSettled among⟩

/-- The toy chain has a pin at each of its versions. -/
theorem ToyHistory.pinOf
    {rosters : List Roster}
    (history : ToyHistory rosters)
    {chain : ChainBody}
    {held : List Held}
    (isHistory : (toy rosters).History chain held)
    (rostersHeld : held.map Held.roster = rosters)
    (keys : chain.groupKeys = [toyKey])
    {version : Nat}
    (positive : 1 ≤ version)
    (inside : version ≤ rosters.length) :
    (toy rosters).PinOf chain (toyPin version) := by
  have standing := isHistory.standing
  have untied : chain.ties = [] := by
    have length := standing.length_groupKeys
    rw [keys] at length
    exact length_eq_zero_iff.mp (by simpa using length.symm)
  have digest : chain.rosterDigests[version - 1]? =
      some (bytesText 32 version) := by
    obtain ⟨roster, isRoster⟩ : ∃ roster, rosters[version - 1]? =
        some roster := ⟨_, getElem?_eq_getElem (by omega)⟩
    have expected := history.digest isRoster
    rw [show version - 1 + 1 = version by omega] at expected
    rw [← rostersHeld, getElem?_map, Option.map_eq_some_iff] at isRoster
    obtain ⟨row, isRow, rfl⟩ := isRoster
    have member := mem_of_getElem? isRow
    have valid := standing.recorded.valid member
    have statement := rosterStatement_of_valid valid
    rw [parseRoster_eq_ok.mp (standing.recorded.parsed row member),
      Except.ok.injEq] at statement
    rw [← standing.digests, getElem?_map, isRow, Option.map_some,
      standing.recorded.hashed row member, statement, ← expected]
  exact {
    firstKey := ⟨toyKey, by simp [keys], rfl, mlDsaDigest_toyKey⟩
    roster := ⟨positive, digest⟩
    key := ⟨le_rfl, toyKey, by simp [keys, toyPin], groupKeyDigest_toyKey⟩
    reached := by simp [untied, toyPin]
    notPast := by simp [untied, toyPin] }

/-- The sample family's two pins settle alike in either order. -/
theorem guard_settles_sampleFamily :
    ∃ chain history, (toy sampleFamily).History chain history ∧
      (Runs.run (settleGuard chain.groupId) none
          [(toyPin 1, []), (toyPin 2, [])]).map GroupPin.reach =
        (Runs.run (settleGuard chain.groupId) none
          [(toyPin 2, []), (toyPin 1, [])]).map GroupPin.reach := by
  obtain ⟨chain, state, accepted, held, keys⟩ :=
    @ToyHistory.accepted _ sampleFamily_history sampleGroup (by decide)
      (by decide) sampleReader [] (by simp)
  have isHistory := Primitives.History.first rfl accepted
  have isKeys : chain.groupKeys = [toyKey] := by
    obtain ⟨_, _, _, _, _, _, _, _, isChain⟩ :=
      (toy sampleFamily).accept_eq_ok.mp accepted
    rw [isChain, ← keys]
    rfl
  have pinOf : ∀ version, 1 ≤ version → version ≤ 2 →
      (toy sampleFamily).PinOf chain (toyPin version) :=
    fun version positive inside =>
      sampleFamily_history.pinOf isHistory held isKeys positive inside
  refine ⟨chain, state.held, isHistory,
    ((toy sampleFamily).guard_settles.2 chain none
      [(toyPin 1, []), (toyPin 2, [])] [(toyPin 2, []), (toyPin 1, [])]
      (by simp [Primitives.GuardOf]) ?_ ?_).2⟩
  · intro pin member
    simp only [cons_append, nil_append, mem_cons,
      not_mem_nil, or_false] at member
    rcases member with rfl | rfl | rfl | rfl
    · exact ⟨pinOf 1 (by omega) (by omega), by simp⟩
    · exact ⟨pinOf 2 (by omega) (by omega), by simp⟩
    · exact ⟨pinOf 2 (by omega) (by omega), by simp⟩
    · exact ⟨pinOf 1 (by omega) (by omega), by simp⟩
  · intro pin
    simp [or_comm]

end

end HushOS
