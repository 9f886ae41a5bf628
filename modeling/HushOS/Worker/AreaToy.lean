import HushOS.Worker.SplitKeys
import HushOS.Worker.Families

namespace HushOS

open Toolkit List OrderedMap

namespace Worker

/-!
# A toy area

A family of one roster, of either format, that lists the first key of one
area.  Its chain is accepted, its area's id is derived under the family, and
the area opens (`areaChain_opens`).
-/

/-- The seed of the toy area's id. -/
def areaSeed : String := bytesText 16 0

/-- The toy area's id. -/
def derivedArea : String := "0b0b0b0b-0b0b-8b0b-8b0b-0b0b0b0b0b0b"

/-- The toy area's root's commitment, where the format lists one. -/
def areaRootOf : RosterFormat → Option String
  | .one => none
  | .two => some (bytesText 32 201)

/-- A roster that lists the toy area's first key. -/
def areaRoster (format : RosterFormat) : Roster :=
  { toyRoster 1 [toyEntry sampleOwner 1 .active [.members] 1]
      [⟨derivedArea, 1, bytesText 32 101, areaRootOf format, false⟩] with
    format := format }

/-- The toy area's first key. -/
def areaKey : Key := List.replicate 32 101

/-- The worker's libraries over a toy area's family. -/
def areaVault (format : RosterFormat) : Vault :=
  toyVault (toy [areaRoster format])

theorem areaRow_valid (format : RosterFormat) :
    RosterArea.Valid format
      ⟨derivedArea, 1, bytesText 32 101, areaRootOf format, false⟩ where
  workspaceId := (by decide : isUuid derivedArea = true)
  version_pos := le_rfl
  version_le := (by decide : 1 ≤ maxSafe)
  retired := by simp
  commitment := fun _ => isBytesOf_bytesText (by decide)
  root := by
    intro _ isTwo
    exact ⟨bytesText 32 201, isTwo ▸ rfl, isBytesOf_bytesText (by decide)⟩
  rootless := by
    rintro rfl
    rfl

/-- The sample roster with an area is valid. -/
theorem areaRoster_valid (format : RosterFormat) :
    (areaRoster format).Valid where
  version_pos := le_rfl
  version_le := (by decide : 1 ≤ maxSafe)
  first := fun _ => rfl
  later := fun later => absurd rfl later
  nonempty := cons_ne_nil _ _
  few := (by decide : 1 ≤ MAX_ROSTER_MEMBERS)
  members := by
    intro entry inMembers
    rw [mem_singleton.mp inMembers]
    exact toyEntry_valid (by decide) (by decide) (by decide) (by decide)
      (by decide) (by decide) le_rfl (by decide : 1 ≤ maxSafe)
  members_sorted := pairwise_singleton _ _
  groupId := (by decide : isUuid sampleGroup = true)
  keyVersion_pos := le_rfl
  keyVersion_le := (by decide : 1 ≤ maxSafe)
  signerUserId := (by decide : isUuid sampleOwner = true)
  rows_few := (by decide : 1 ≤ MAX_ROSTER_AREA_ROWS)
  areas := by
    intro area inAreas
    rw [mem_singleton.mp inAreas]
    exact areaRow_valid format
  areas_sorted := pairwise_singleton _ _

/-- The sample roster with an area is a history of its own. -/
theorem areaRoster_history (format : RosterFormat) :
    ToyHistory [areaRoster format] where
  nonempty := by simp
  valid := by
    intro roster member
    rw [mem_singleton.mp member]
    exact areaRoster_valid format
  versions := by
    intro index roster found
    rcases index with _ | _
    · rw [getElem?_cons_zero, Option.some.injEq] at found
      exact found ▸ rfl
    · simp at found
  named := by simp
  small := (by decide : 1 < 256)
  keys := by
    intro roster member entry inMembers
    rw [mem_singleton.mp member] at inMembers
    rw [mem_singleton.mp inMembers]
    rfl
  ruled := by
    cases format with
    | one =>
      exact ⟨by simp, rfl, rfl, rfl, by decide, by simp, by simp, rfl,
        trivial⟩
    | two =>
      exact ⟨by simp, rfl, rfl, rfl, by decide, by simp, by simp, rfl,
        trivial⟩

/-- A chain accepted of the toy area's family. -/
structure OfArea
    (format : RosterFormat)
    (chain : Accepted (areaVault format).toPrimitives) : Prop where
  groupId : chain.val.groupId = sampleGroup
  areaKeys : chain.val.areaKeys.get? derivedArea = some [bytesText 32 101]
  areaRoots : chain.val.areaRoots.listAt derivedArea = [areaRootOf format]
  notRetired : derivedArea ∉ chain.val.retiredAreas
  statements : chain.statements ⊆ {(areaRoster format).bytes}

/-- The sample roster is accepted as a chain. -/
theorem exists_areaChain (format : RosterFormat) :
    ∃ chain, OfArea format chain := by
  obtain ⟨chain, state, accepted, held, _⟩ :=
    @ToyHistory.accepted _ (areaRoster_history format) sampleGroup (by decide)
      (by simp [areaRoster, toyRoster]) sampleReader [] (by simp)
  have isHistory := Primitives.History.first rfl accepted
  have order := isHistory.areasInOrder
  have rows : rowsOf state.held = (areaRoster format).areas := by
    have areas := congrArg (List.flatMap Roster.areas) held
    rw [flatMap_map] at areas
    simpa [rowsOf] using areas
  have keyRows : keyRowsOf derivedArea (rowsOf state.held) =
      (areaRoster format).areas := by
    rw [rows]
    rfl
  have listed : chain.areaKeys.listAt derivedArea = [bytesText 32 101] := by
    rw [order.keys, keyRows]
    rfl
  have isListed : derivedArea ∈ chain.areaKeys.keys := by
    rw [order.listed, keyRows]
    exact cons_ne_nil _ _
  have standing := isHistory.standing
  have isLatest : state.held.getLast? = some chain.latest := standing.latest
  have inHeld := mem_of_getLast? isLatest
  have isRoster : chain.latest.roster = areaRoster format := by
    have member : chain.latest.roster ∈ state.held.map Held.roster :=
      mem_map.mpr ⟨_, inHeld, rfl⟩
    rw [held] at member
    exact mem_singleton.mp member
  have statement : chain.latest.statement = (areaRoster format).bytes := by
    have read := standing.recorded.parsed _ inHeld
    rw [isRoster, parseRoster_eq_ok,
      rosterStatement_of_valid (areaRoster_valid format)] at read
    exact (Except.ok.inj read).symm
  have one : chain.rosterDigests.length = 1 := by
    have lengths := congrArg List.length held
    rw [length_map, length_singleton] at lengths
    rw [← standing.digests, length_map, lengths]
  refine ⟨⟨chain, _, isHistory⟩, ?_, ?_, ?_, ?_, ?_⟩
  · have ofGroup := standing.recorded.ofGroup _ inHeld
    rw [isRoster] at ofGroup
    exact ofGroup.symm
  · rw [get?_eq_listAt isListed, listed]
  · show chain.areaRoots.listAt derivedArea = _
    rw [order.roots, keyRows]
    rfl
  · show derivedArea ∉ chain.retiredAreas
    rw [order.retired, rows]
    rintro ⟨row, member, isRetired, _⟩
    rw [mem_singleton.mp member] at isRetired
    cases isRetired
  · rintro found ⟨history, isAlso, other, member, rfl⟩
    have also := isAlso.standing
    have lengths := congrArg List.length also.digests
    rw [length_map] at lengths
    obtain ⟨only, rfl⟩ := length_eq_one_iff.mp (lengths.trans one)
    have isOnly : [only].getLast? = some chain.latest := also.latest
    rw [getLast?_singleton, Option.some.injEq] at isOnly
    rw [mem_singleton.mp member, isOnly]
    exact statement

/-- The message the toy area's id is derived from. -/
def areaIdParts : List Json.Plain :=
  [.text "hushos/id", .number 1, .text "workspace", .text sampleGroup,
    .text areaSeed]

/-- The sample area's id is derived from its seed. -/
theorem checkId_derivedArea (format : RosterFormat) :
    (areaVault format).checkId sampleGroup areaSeed derivedArea = true := by
  have lower : sampleGroup.toLower = sampleGroup := by
    rw [← String.toList_inj, String.toLower, String.toList_map]
    decide
  have seed : decode areaSeed ID_SEED_BYTES =
      .ok (List.replicate ID_SEED_BYTES (UInt8.ofNat 0)) :=
    decode_bytesText (by decide)
  have encoded : encodeStatement areaIdParts =
      .ok (Utf8.encode (Json.compact (.list areaIdParts))) :=
    encodeStatement_of_short (by decide) (by decide)
  have hashed : (toy [areaRoster format]).sha256
      (Utf8.encode (Json.compact (.list areaIdParts))) =
        List.replicate 32 11 := by
    have absent : [areaRoster format].findIdx? (fun roster =>
        roster.bytes = Utf8.encode (Json.compact (.list areaIdParts))) =
          none := by
      rw [findIdx?_eq_none_iff]
      intro roster member
      rw [mem_singleton.mp member, decide_eq_false_iff_not]
      intro same
      have rosterEncoded := (rosterStatement_eq_ok.mp
        (rosterStatement_of_valid (areaRoster_valid format))).2
      rw [same] at rosterEncoded
      have parts := encodeStatement_injective rosterEncoded encoded
      simp only [Roster.parts, areaIdParts, List.cons.injEq,
        Json.Plain.text.injEq] at parts
      exact absurd parts.1 (by decide)
    have length :
        (Utf8.encode (Json.compact (.list areaIdParts))).length = 91 := by
      decide
    show List.replicate 32 (UInt8.ofNat (toyHash _ _)) = _
    rw [toyHash, absent, length]
    rfl
  have derived : (areaVault format).deriveId sampleGroup areaSeed =
      .ok derivedArea := by
    have notEmpty : ¬ sampleGroup = "" := by decide
    simp only [Vault.deriveId, notEmpty, seed, withReason, lower]
    have message : uuidV8 ((toy [areaRoster format]).sha256
        (Utf8.encode (Json.compact (.list areaIdParts)))) = derivedArea := by
      rw [hashed]
      decide
    exact congrArg Except.ok message
  simp [Vault.checkId, derived]

variable {format : RosterFormat}

theorem OfArea.writeVersion
    {chain : Accepted (areaVault format).toPrimitives}
    (ofArea : OfArea format chain) :
    areaWriteVersion chain derivedArea = some 1 := by
  have isId : isUuid derivedArea = true := by decide
  simp [areaWriteVersion, areaCommitments, isId, ofArea.areaKeys,
    ofArea.notRetired]

theorem OfArea.commit
    {chain : Accepted (areaVault format).toPrimitives}
    (ofArea : OfArea format chain) :
    ∃ after, (createAreaLedger (areaVault format)).commit chain = .ok after ∧
      after.chains.get? sampleGroup = some chain ∧
      after.personal = ∅ ∧ after.opened = .empty := by
  obtain ⟨after, committed⟩ :=
    @Ledger.exists_commit _ (createAreaLedger (areaVault format)) chain
      (by simp [createAreaLedger]) (by simp [createAreaLedger])
  obtain ⟨_, chains, _⟩ := Ledger.commit_eq_ok committed
  obtain ⟨opened, personal⟩ := Ledger.commit_frame committed
  refine ⟨after, committed, ?_, personal, opened⟩
  rw [chains, ofArea.groupId, get?_set, if_pos rfl]

/-- The operations that commit the toy area's chain and open its key. -/
def areaOps
    {format : RosterFormat}
    (chain : Accepted (areaVault format).toPrimitives) :
    List (Op (areaVault format)) :=
  [.commit chain,
    .openArea sampleGroup derivedArea areaSeed 1 areaKey 1]

/-- The sample area opens under the sample chain. -/
theorem OfArea.opens
    {chain : Accepted (areaVault format).toPrimitives}
    (ofArea : OfArea format chain) :
    ∃ after,
      (createAreaLedger (areaVault format)).commit chain = .ok after ∧
        Ledger.OpenHolds after sampleGroup derivedArea areaSeed 1 areaKey chain 1 ∧
        (createAreaLedger (areaVault format)).run (areaOps chain) =
          after.opening sampleGroup derivedArea 1 areaKey 1 1 ∧
        after.opened = .empty := by
  obtain ⟨after, committed, isChain, personal, opened⟩ := ofArea.commit
  have holds : Ledger.OpenHolds after sampleGroup derivedArea areaSeed 1
      areaKey chain 1 := {
    isGroup := by decide
    isChain := isChain
    isWorkspace := by decide
    notPersonal := by simp [personal]
    derived := checkId_derivedArea format
    isLatest := ofArea.writeVersion
    positive := le_rfl
    listed := by
      refine ⟨bytesText 32 101, rfl, ?_⟩
      rw [listAt_of_get? ofArea.areaKeys]
      rfl }
  have isOpened : ∃ block,
      after.openArea sampleGroup derivedArea areaSeed 1 areaKey 1 =
        .ok (block, after.opening sampleGroup derivedArea 1 areaKey 1 1) :=
    ⟨_, Ledger.openArea_eq_ok.mpr ⟨chain, 1, holds, rfl, rfl⟩⟩
  obtain ⟨block, isOpened⟩ := isOpened
  refine ⟨after, committed, holds, ?_, opened⟩
  simp only [areaOps, Ledger.run, foldl_cons, foldl_nil,
    Ledger.step, committed, isOpened, orUnchanged]

/-- Another family's id. -/
def otherGroup : String := "00000000-0000-4000-8000-000000000002"

/-- Another family withdrawn, owed and forgotten leaves the toy area alone. -/
theorem families_apart_toy :
    ∃ chain : Accepted (areaVault .two).toPrimitives,
      let others : List (Op (areaVault .two)) :=
        [.uncommit otherGroup, .owe otherGroup, .forgetGroup otherGroup]
      let start := (createAreaLedger (areaVault .two)).run (areaOps chain)
      sampleGroup ∈ start.openedBy derivedArea ∧
        SameAnswers derivedArea start
          ((createAreaLedger (areaVault .two)).run
            (areaOps chain ++ others)) ∧
        ∃ after, start.openPersonalWorkspace sampleMember 1 areaKey =
            .ok after ∧
          (after.run others).isArea sampleMember = false := by
  obtain ⟨chain, ofArea⟩ := exists_areaChain .two
  obtain ⟨committed, _, _, isOpened, opened⟩ := ofArea.opens
  have member : sampleGroup ∈
      ((createAreaLedger (areaVault .two)).run (areaOps chain)).openedBy
        derivedArea := by
    rw [isOpened, Ledger.mem_openedBy, Ledger.opens_opening]
    exact .inl ⟨rfl, rfl⟩
  have apart := @Ledger.families_apart (areaVault .two) (areaOps chain)
    [.uncommit otherGroup, .owe otherGroup, .forgetGroup otherGroup]
  have nothing : ((createAreaLedger (areaVault .two)).run
      (areaOps chain)).openedByFamily sampleMember = false := by
    have none_ : ((createAreaLedger (areaVault .two)).run
        (areaOps chain)).openedBy sampleMember = [] := by
      rw [eq_nil_iff_forall_not_mem]
      intro groupId listed
      rw [isOpened, Ledger.mem_openedBy, Ledger.opens_opening] at listed
      rcases listed with ⟨_, same⟩ | ⟨areas, isAreas, _⟩
      · exact absurd same (by decide)
      · simp [opened] at isAreas
    simp [Ledger.openedByFamily, none_]
  have personal : ∃ after, ((createAreaLedger (areaVault .two)).run
      (areaOps chain)).openPersonalWorkspace sampleMember 1 areaKey =
        .ok after := by
    rw [Ledger.openPersonalWorkspace, nothing]
    exact ⟨_, rfl⟩
  obtain ⟨after, isPersonal⟩ := personal
  refine ⟨chain, member, apart.1 member ?_ ?_, after, isPersonal,
    apart.2 isPersonal (by simp)⟩
  · intro op inOthers
    simp only [mem_cons, not_mem_nil, or_false] at inOthers
    rcases inOthers with rfl | rfl | rfl
    · exact (by decide : decide (otherGroup ≠ sampleGroup) = true)
    · exact (by decide : decide (otherGroup ≠ sampleGroup) = true)
    · exact (by decide : decide (otherGroup ≠ sampleGroup) = true)
  · have only {groupId workspaceId : String}
        (derived : Derived (areaOps chain ++
          [.uncommit otherGroup, .owe otherGroup, .forgetGroup otherGroup])
            groupId workspaceId) :
        groupId = sampleGroup := by
      obtain ⟨idSeed, version, key, served, listed, _⟩ := derived
      simp only [areaOps, cons_append, nil_append, mem_cons,
        reduceCtorEq, Op.openArea.injEq, not_mem_nil, or_false,
        false_or] at listed
      exact listed.1
    intro first second workspaceId isFirst isSecond
    rw [only isFirst, only isSecond]

end Worker

end HushOS
