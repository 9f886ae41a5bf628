import HushOS.Worker.Reaching

namespace HushOS

open Toolkit List OrderedMap

namespace Worker

/-!
# Write keys

Whatever rows are served and in whatever order, a key an area is written with
was reached from the area key at the version its family's chain lists as
latest (`Ledger.handed`).  Every key held or pending that is rooted at a
version was reached from the area key at it (`Walked`), and a key that is
rooted nowhere is never handed out.
-/

variable {V : Vault}

theorem slot_eq_iff
    {workspaceId nodeId other later : String}
    (isWorkspace : Slashless workspaceId)
    (isNode : Slashless nodeId) :
    slot other later = slot workspaceId nodeId ↔
      other = workspaceId ∧ later = nodeId := by
  rw [eq_comm, slot, slot, Slots.slashed_inj isWorkspace isNode]
  constructor
  · rintro ⟨rfl, rfl⟩
    exact ⟨rfl, rfl⟩
  · rintro ⟨rfl, rfl⟩
    exact ⟨rfl, rfl⟩

theorem isUnder_slot (workspaceId nodeId : String) :
    isUnder workspaceId (slot workspaceId nodeId) = true := by
  rw [isUnder, begins, isPrefixOf_iff_prefix]
  exact ⟨nodeId.toList, by simp [slot]⟩

/-- A key rooted at a version was reached from the floor's key at it. -/
def Ledger.Rooted
    (ledger : Ledger V)
    (ops : List (Op V))
    (groupId workspaceId nodeId : String)
    (key : Key)
    (epoch : Nat)
    (rootedAt : Option Nat) :
    Prop :=
  ∀ version, rootedAt = some version →
    ∃ floor, ledger.floors.get? groupId = some floor ∧
      Reached floor workspaceId version ops nodeId key epoch

/-- What holds of the keys a ledger holds, walked to by operations. -/
structure Walked (ops : List (Op V)) (ledger : Ledger V) : Prop where
  ownKeyed : ∀ {workspaceId nodeId : String} {held : HeldKey},
    ledger.ownNodeKeys.get? (slot workspaceId nodeId) = some held →
      Slashless workspaceId ∧ Slashless nodeId ∧
        ledger.workspaceKeys.has workspaceId = true
  pendingKeyed : ∀ {workspaceId nodeId : String} {pending : PendingKey},
    ledger.pendingNodeKeys.get? (slot workspaceId nodeId) = some pending →
      Slashless workspaceId ∧ Slashless nodeId ∧
        ledger.workspaceKeys.has workspaceId = true
  noGuest : ∀ place, ledger.guestNodeKeys.get? place = none
  opened : ∀ {workspaceId : String},
    ledger.workspaceKeys.has workspaceId = true →
      ∃ groupId, ledger.Opens groupId workspaceId
  areaKeys : ∀ {groupId workspaceId : String} {version : Nat} {key : Key},
    ledger.openedBy workspaceId = [groupId] →
    ledger.workspaceKey workspaceId version = some key →
      ∃ floor, ledger.floors.get? groupId = some floor ∧
        Lists floor workspaceId version key
  own : ∀ {groupId workspaceId nodeId : String} {held : HeldKey},
    ledger.openedBy workspaceId = [groupId] →
    ledger.ownNodeKeys.get? (slot workspaceId nodeId) = some held →
      ledger.Rooted ops groupId workspaceId nodeId held.key held.epoch
        (ledger.rootedAtOf workspaceId nodeId)
  pending : ∀ {groupId workspaceId nodeId : String} {pending : PendingKey},
    ledger.openedBy workspaceId = [groupId] →
    ledger.pendingNodeKeys.get? (slot workspaceId nodeId) = some pending →
      ledger.Rooted ops groupId workspaceId nodeId pending.fresh
        pending.epoch pending.rootedAt

/-- A rooted key stays rooted where the floors carry on. -/
theorem Ledger.Rooted.carry
    {ledger after : Ledger V}
    {ops more : List (Op V)}
    {groupId workspaceId nodeId : String}
    {key : Key}
    {epoch : Nat}
    {rootedAt : Option Nat}
    (rooted :
      ledger.Rooted ops groupId workspaceId nodeId key epoch rootedAt)
    (floors : ∀ floor, ledger.floors.get? groupId = some floor →
      ∃ later, after.floors.get? groupId = some later ∧
        Carries floor later)
    (reaches : ∀ {floor : Accepted V.toPrimitives} {version : Nat},
      Reached floor workspaceId version ops nodeId key epoch →
        Reached floor workspaceId version more nodeId key epoch) :
    after.Rooted more groupId workspaceId nodeId key epoch rootedAt := by
  intro version isRooted
  obtain ⟨floor, isFloor, reached⟩ := rooted version isRooted
  obtain ⟨later, isLater, carries⟩ := floors floor isFloor
  exact ⟨later, isLater, (reaches reached).carry carries⟩

namespace Walked

variable {ops : List (Op V)} {ledger after : Ledger V}

theorem start : Walked [] (createAreaLedger V) where
  ownKeyed := by simp [createAreaLedger]
  pendingKeyed := by simp [createAreaLedger]
  noGuest := by simp [createAreaLedger]
  opened := by simp [createAreaLedger]
  areaKeys := by simp [createAreaLedger, Ledger.workspaceKey]
  own := by simp [createAreaLedger]
  pending := by simp [createAreaLedger]

theorem later
    (walked : Walked ops ledger)
    (op : Op V) :
    Walked (ops ++ [op]) ledger :=
  { walked with
    own := fun isOpened isHeld =>
      (walked.own isOpened isHeld).carry
        (fun floor isFloor => ⟨floor, isFloor, .refl floor⟩)
        (fun reached => .later reached op)
    pending := fun isOpened isPending =>
      (walked.pending isOpened isPending).carry
        (fun floor isFloor => ⟨floor, isFloor, .refl floor⟩)
        (fun reached => .later reached op) }

/--
The same keys held; the areas of keys held are opened still, and those of one
family were its before, whose floor is carried on.
-/
theorem among
    (walked : Walked ops ledger)
    (keys : SameKeys ledger after)
    (opened : ∀ {workspaceId : String},
      ledger.workspaceKeys.has workspaceId = true →
        ∃ groupId, after.Opens groupId workspaceId)
    (families : ∀ {groupId workspaceId : String},
      ledger.workspaceKeys.has workspaceId = true →
      after.openedBy workspaceId = [groupId] →
        ledger.openedBy workspaceId = [groupId] ∧
          ∀ floor, ledger.floors.get? groupId = some floor →
            ∃ later, after.floors.get? groupId = some later ∧
              Carries floor later) :
    Walked ops after where
  ownKeyed := by
    rw [keys.ownNodeKeys, keys.workspaceKeys]
    exact walked.ownKeyed
  pendingKeyed := by
    rw [keys.pendingNodeKeys, keys.workspaceKeys]
    exact walked.pendingKeyed
  noGuest := by
    rw [keys.guestNodeKeys]
    exact walked.noGuest
  opened := by
    rw [keys.workspaceKeys]
    exact opened
  areaKeys := by
    intro groupId workspaceId version key isOpened isKey
    unfold Ledger.workspaceKey at isKey
    rw [keys.workspaceKeys] at isKey
    have keyed : ledger.workspaceKeys.has workspaceId = true := by
      rw [Option.bind_eq_some_iff] at isKey
      obtain ⟨held, isHeld, _⟩ := isKey
      rw [has_iff]
      exact OrderedMap.mem_keys.mpr ⟨held, isHeld⟩
    obtain ⟨before, floors⟩ := families keyed isOpened
    obtain ⟨floor, isFloor, lists⟩ := walked.areaKeys before isKey
    obtain ⟨later, isLater, carries⟩ := floors floor isFloor
    exact ⟨later, isLater, lists.carry carries⟩
  own := by
    intro groupId workspaceId nodeId held isOpened isHeld
    rw [keys.ownNodeKeys] at isHeld
    obtain ⟨before, floors⟩ :=
      families (walked.ownKeyed isHeld).2.2 isOpened
    unfold Ledger.rootedAtOf
    rw [keys.lineage]
    exact (walked.own before isHeld).carry floors (fun reached => reached)
  pending := by
    intro groupId workspaceId nodeId pending isOpened isPending
    rw [keys.pendingNodeKeys] at isPending
    obtain ⟨before, floors⟩ :=
      families (walked.pendingKeyed isPending).2.2 isOpened
    exact (walked.pending before isPending).carry floors
      (fun reached => reached)

theorem keep
    (walked : Walked ops ledger)
    (keys : SameKeys ledger after)
    (opened : after.opened = ledger.opened)
    (floors : ∀ groupId floor, ledger.floors.get? groupId = some floor →
      ∃ later, after.floors.get? groupId = some later ∧
        Carries floor later) :
    Walked ops after := by
  refine walked.among keys ?_ ?_
  · unfold Ledger.Opens
    rw [opened]
    exact walked.opened
  · intro groupId workspaceId _ isOpened
    unfold Ledger.openedBy at isOpened
    rw [opened] at isOpened
    exact ⟨isOpened, floors groupId⟩

theorem same
    (walked : Walked ops ledger)
    (keys : SameKeys ledger after)
    (families : SameFamilies ledger after) :
    Walked ops after := by
  refine walked.keep keys families.opened ?_
  intro groupId floor isFloor
  exact ⟨floor, by rw [families.floors, isFloor], .refl floor⟩

variable {workspaceId nodeId : String}

theorem nodeKey
    (walked : Walked ops ledger)
    {held : HeldKey}
    (isHeld : ledger.nodeKey workspaceId nodeId = some held) :
    ledger.ownNodeKeys.get? (slot workspaceId nodeId) = some held := by
  unfold Ledger.nodeKey Ledger.nodeKeysOf at isHeld
  split at isHeld
  · simp at isHeld
  · split at isHeld
    · exact isHeld
    · simp [walked.noGuest] at isHeld

/-- A parent's key comes of a workspace with keys. -/
theorem workspaceKeys
    (walked : Walked ops ledger)
    {workspaceId parentId : String}
    {parentKeyEpoch : Nat}
    {parent : Key × Option Nat}
    (isParent : ledger.parentKeyAndRoot workspaceId parentId
      parentKeyEpoch = .ok parent) :
    ledger.workspaceKeys.has workspaceId = true := by
  unfold Ledger.parentKeyAndRoot at isParent
  split at isParent
  · split at isParent
    · simp at isParent
    · next workspace found =>
        simp [OrderedMap.mem_keys, found]
  · dsimp only at isParent
    split at isParent
    · next pending found =>
        rw [Option.filter_eq_some_iff] at found
        exact (walked.pendingKeyed found.1).2.2
    · split at isParent
      · next pending found =>
          rw [Option.filter_eq_some_iff] at found
          exact (walked.pendingKeyed found.1).2.2
      · split at isParent
        · simp at isParent
        · next held isHeld =>
            exact (walked.ownKeyed (walked.nodeKey isHeld)).2.2

/-- A rooted parent is the workspace's own key or a current node's. -/
theorem parent
    (walked : Walked ops ledger)
    {groupId workspaceId parentId : String}
    (isOpened : ledger.openedBy workspaceId = [groupId])
    {parentKeyEpoch version : Nat}
    {parentKey : Key}
    (isParent : ledger.parentKeyAndRoot workspaceId parentId
      parentKeyEpoch = .ok (parentKey, some version)) :
    (parentId = workspaceId ∧ parentKeyEpoch = version ∧
        ledger.workspaceKey workspaceId version = some parentKey) ∨
      parentId ≠ workspaceId ∧
        ledger.Current workspaceId parentId parentKey parentKeyEpoch ∧
        ∃ floor, ledger.floors.get? groupId = some floor ∧
          Reached floor workspaceId version ops parentId parentKey
            parentKeyEpoch := by
  unfold Ledger.parentKeyAndRoot at isParent
  split at isParent
  · next isTop =>
      refine .inl ⟨isTop, ?_⟩
      split at isParent
      · simp at isParent
      · next workspace isWorkspace =>
          split at isParent
          · simp at isParent
          · next key isKey =>
              simp only [Except.ok.injEq, Prod.mk.injEq,
                Option.some.injEq] at isParent
              obtain ⟨rfl, rfl⟩ := isParent
              refine ⟨rfl, ?_⟩
              rw [Ledger.workspaceKey, isWorkspace, Option.bind_some, isKey]
  · next notTop =>
      refine .inr ⟨notTop, ?_⟩
      dsimp only at isParent
      split at isParent
      · next pending found =>
          rw [Option.filter_eq_some_iff, decide_eq_true_eq] at found
          simp only [Except.ok.injEq, Prod.mk.injEq] at isParent
          obtain ⟨rfl, isRooted⟩ := isParent
          obtain ⟨isPending, rfl⟩ := found
          exact ⟨.inl ⟨pending, isPending, rfl, rfl⟩,
            walked.pending isOpened isPending version isRooted⟩
      · split at isParent
        · simp at isParent
        · next notOld =>
            split at isParent
            · simp at isParent
            · next held isHeld =>
                split at isParent
                · next isEpoch =>
                    simp only [Except.ok.injEq, Prod.mk.injEq] at isParent
                    obtain ⟨rfl, isRooted⟩ := isParent
                    subst isEpoch
                    refine ⟨.inr ⟨held, isHeld, rfl, rfl, ?_⟩,
                      walked.own isOpened (walked.nodeKey isHeld) version
                        isRooted⟩
                    intro pending isPending isOld
                    rw [isPending, Option.filter_eq_none_iff] at notOld
                    exact notOld pending rfl (by simpa using isOld)
                · split at isParent
                  · simp at isParent
                  · simp at isParent

/-- Remembering a rooted key leaves the keys walked. -/
theorem remember
    (walked : Walked ops ledger)
    (isWorkspace : Slashless workspaceId)
    (isNode : Slashless nodeId)
    (keyed : ledger.workspaceKeys.has workspaceId = true)
    {key : Key}
    {epoch : Nat}
    {rootedAt : Option Nat}
    (rooted : ∀ groupId, ledger.openedBy workspaceId = [groupId] →
      ledger.Rooted ops groupId workspaceId nodeId key epoch rootedAt) :
    Walked ops
      (ledger.rememberNodeKey workspaceId nodeId key epoch rootedAt) := by
  have remembered :
      ledger.rememberNodeKey workspaceId nodeId key epoch rootedAt =
        { ledger with
          ownNodeKeys := ledger.ownNodeKeys.set (slot workspaceId nodeId)
            { key, epoch }
          lineage := ledger.lineage.set (slot workspaceId nodeId) rootedAt
          rootOpenedUnder :=
            ledger.rootOpenedUnder.erase (slot workspaceId nodeId) } := by
    simp only [Ledger.rememberNodeKey, Ledger.withNodeKeys, keyed, ↓reduceIte]
  rw [remembered]
  exact { walked with
    ownKeyed := by
      intro other later held isHeld
      rw [get?_set] at isHeld
      split at isHeld
      · next here =>
          obtain ⟨rfl, rfl⟩ := (slot_eq_iff isWorkspace isNode).mp here
          exact ⟨isWorkspace, isNode, keyed⟩
      · exact walked.ownKeyed isHeld
    own := by
      intro groupId other later held isOpened isHeld
      rw [get?_set] at isHeld
      unfold Ledger.rootedAtOf
      rw [get?_set]
      split at isHeld
      · next here =>
          obtain ⟨rfl, rfl⟩ := (slot_eq_iff isWorkspace isNode).mp here
          rw [if_pos rfl]
          obtain rfl := Option.some.inj isHeld
          exact rooted groupId isOpened
      · next elsewhere =>
          rw [if_neg elsewhere]
          exact walked.own isOpened isHeld }

/-- Keys that only go leave the rest walked. -/
theorem fewer
    (walked : Walked ops ledger)
    (workspaceKeys : after.workspaceKeys = ledger.workspaceKeys)
    (guest : ∀ place, after.guestNodeKeys.get? place = none)
    (pendingNodeKeys : ∀ place pending,
      after.pendingNodeKeys.get? place = some pending →
        ledger.pendingNodeKeys.get? place = some pending)
    (own : ∀ place held, after.ownNodeKeys.get? place = some held →
      ledger.ownNodeKeys.get? place = some held ∧
        after.lineage.get? place = ledger.lineage.get? place)
    (opened : after.opened = ledger.opened)
    (floors : after.floors = ledger.floors) :
    Walked ops after where
  ownKeyed := by
    intro workspaceId nodeId held isHeld
    rw [workspaceKeys]
    exact walked.ownKeyed (own _ _ isHeld).1
  pendingKeyed := by
    intro workspaceId nodeId pending isPending
    rw [workspaceKeys]
    exact walked.pendingKeyed (pendingNodeKeys _ _ isPending)
  noGuest := guest
  opened := by
    unfold Ledger.Opens
    rw [workspaceKeys, opened]
    exact walked.opened
  areaKeys := by
    unfold Ledger.openedBy Ledger.workspaceKey
    rw [opened, workspaceKeys, floors]
    exact walked.areaKeys
  own := by
    intro groupId workspaceId nodeId held isOpened isHeld
    unfold Ledger.openedBy at isOpened
    rw [opened] at isOpened
    obtain ⟨before, lineage⟩ := own _ _ isHeld
    unfold Ledger.rootedAtOf Ledger.Rooted
    rw [lineage, floors]
    exact walked.own isOpened before
  pending := by
    intro groupId workspaceId nodeId pending isOpened isPending
    unfold Ledger.openedBy at isOpened
    rw [opened] at isOpened
    unfold Ledger.Rooted
    rw [floors]
    exact walked.pending isOpened (pendingNodeKeys _ _ isPending)

theorem forget
    (walked : Walked ops ledger)
    (workspaceId nodeId : String) :
    Walked ops (ledger.forgetNodeKey workspaceId nodeId) := by
  unfold Ledger.forgetNodeKey Ledger.withNodeKeys
  split
  · refine walked.fewer rfl walked.noGuest (fun _ _ found => found) ?_ rfl rfl
    intro place held isHeld
    rw [get?_erase] at isHeld
    split at isHeld
    · simp at isHeld
    · exact ⟨isHeld, rfl⟩
  · refine walked.fewer rfl ?_ (fun _ _ found => found)
      (fun _ _ found => ⟨found, rfl⟩) rfl rfl
    intro place
    rw [get?_erase]
    split
    · rfl
    · exact walked.noGuest place

/-- A key remembered and forgotten leaves the keys walked. -/
theorem rememberForget
    (walked : Walked ops ledger)
    (keyed : ledger.workspaceKeys.has workspaceId = true)
    (key : Key)
    (epoch : Nat)
    (rootedAt : Option Nat) :
    Walked ops
      ((ledger.rememberNodeKey workspaceId nodeId key epoch
        rootedAt).forgetNodeKey workspaceId nodeId) := by
  have remembered :
      (ledger.rememberNodeKey workspaceId nodeId key epoch
          rootedAt).forgetNodeKey workspaceId nodeId =
        { ledger with
          ownNodeKeys := (ledger.ownNodeKeys.set (slot workspaceId nodeId)
            { key, epoch }).erase (slot workspaceId nodeId)
          lineage := ledger.lineage.set (slot workspaceId nodeId) rootedAt
          rootOpenedUnder :=
            ledger.rootOpenedUnder.erase (slot workspaceId nodeId) } := by
    simp only [Ledger.rememberNodeKey, Ledger.forgetNodeKey,
      Ledger.withNodeKeys, keyed, ↓reduceIte]
  rw [remembered]
  refine walked.fewer rfl walked.noGuest (fun _ _ found => found) ?_ rfl rfl
  intro place held isHeld
  rw [get?_erase] at isHeld
  split at isHeld
  · simp at isHeld
  · next elsewhere =>
      rw [get?_set, if_neg elsewhere] at isHeld
      refine ⟨isHeld, ?_⟩
      rw [get?_set, if_neg elsewhere]

/-- Setting a rooted pending key leaves the keys walked. -/
theorem setPending
    (walked : Walked ops ledger)
    (isWorkspace : Slashless workspaceId)
    (isNode : Slashless nodeId)
    (keyed : ledger.workspaceKeys.has workspaceId = true)
    {pending : PendingKey}
    (rooted : ∀ groupId, ledger.openedBy workspaceId = [groupId] →
      ledger.Rooted ops groupId workspaceId nodeId pending.fresh
        pending.epoch pending.rootedAt) :
    Walked ops (ledger.setPending workspaceId nodeId pending) :=
  { walked with
    pendingKeyed := by
      intro other later found isPending
      have isSet : (ledger.pendingNodeKeys.set (slot workspaceId nodeId)
          pending).get? (slot other later) = some found := isPending
      rw [get?_set] at isSet
      split at isSet
      · next here =>
          obtain ⟨rfl, rfl⟩ := (slot_eq_iff isWorkspace isNode).mp here
          exact ⟨isWorkspace, isNode, keyed⟩
      · exact walked.pendingKeyed isSet
    pending := by
      intro groupId other later found isOpened isPending
      have isSet : (ledger.pendingNodeKeys.set (slot workspaceId nodeId)
          pending).get? (slot other later) = some found := isPending
      rw [get?_set] at isSet
      split at isSet
      · next here =>
          obtain ⟨rfl, rfl⟩ := (slot_eq_iff isWorkspace isNode).mp here
          obtain rfl := Option.some.inj isSet
          exact rooted groupId isOpened
      · exact walked.pending isOpened isSet }

end Walked

end Worker

end HushOS
