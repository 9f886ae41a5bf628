import HushOS.Acceptance.Toy

namespace HushOS

open Toolkit List

/-!
# Areas along an accepted chain

The rows of an accepted chain number every area's keys without a gap, list no
commitment twice, close what is retired, stay within a family's cap, and give
every live area a new key at each removal.
-/

/-- The areas of an accepted chain, every roster on it being known. -/
structure AreasInOrder (chain : ChainBody) (history : List Held) : Prop where
  digests : history.map Held.digest = chain.rosterDigests
  versions : ∀ {index : Nat} {held : Held},
    history[index]? = some held → held.roster.rosterVersion = index + 1
  kinds : ∀ held ∈ history, held.roster.kind = chain.kind
  numbered : ∀ workspaceId,
    (keyRowsOf workspaceId (rowsOf history)).map
        RosterArea.workspaceKeyVersion =
      List.range' 1 (keyRowsOf workspaceId (rowsOf history)).length
  keys : ∀ workspaceId,
    chain.areaKeys.listAt workspaceId =
      (keyRowsOf workspaceId (rowsOf history)).map RosterArea.commitment
  roots : ∀ workspaceId,
    chain.areaRoots.listAt workspaceId =
      (keyRowsOf workspaceId (rowsOf history)).map RosterArea.rootCommitment
  listed : ∀ workspaceId,
    workspaceId ∈ chain.areaKeys.keys ↔
      keyRowsOf workspaceId (rowsOf history) ≠ []
  rootsListed : chain.areaRoots.keys = chain.areaKeys.keys
  commitments :
    ((keyRows (rowsOf history)).map RosterArea.commitment).Nodup
  rootCommitments :
    ((keyRows (rowsOf history)).filterMap RosterArea.rootCommitment).Nodup
  retired : ∀ workspaceId,
    workspaceId ∈ chain.retiredAreas ↔
      ∃ row ∈ rowsOf history,
        row.retired = true ∧ row.workspaceId = workspaceId
  closed : ∀ {index laterIndex : Nat} {held later : Held},
    history[index]? = some held → history[laterIndex]? = some later →
    index < laterIndex →
    ∀ row ∈ held.roster.areas, row.retired = true →
      ∀ laterRow ∈ later.roster.areas,
        laterRow.workspaceId ≠ row.workspaceId
  live : ∀ count workspaceId,
    workspaceId ∈ liveAreas (AreaLedger.of (rowsOf (history.take count))) ↔
      keyRowsOf workspaceId (rowsOf (history.take count)) ≠ [] ∧
        ∀ row ∈ rowsOf (history.take count),
          row.workspaceId = workspaceId → row.retired = false
  liveDistinct : ∀ count,
    (liveAreas (AreaLedger.of (rowsOf (history.take count)))).Nodup
  few : chain.kind = .family → ∀ count,
    (liveAreas (AreaLedger.of (rowsOf (history.take count)))).length ≤ 1024
  rotated : chain.kind = .family →
    ∀ {index : Nat} {before after : Held} {entry : RosterMember},
    history[index]? = some before → history[index + 1]? = some after →
    entry ∈ after.roster.members → entry.status = .left →
    active (rosterEntry before.roster entry.userId) = true →
      ∀ workspaceId ∈
        liveAreas (AreaLedger.of (rowsOf (history.take (index + 1)))),
        ∃ row ∈ after.roster.areas, row.workspaceId = workspaceId
  current : chain.kind = .family →
    ∀ {index : Nat} {before after : Held} {entry : RosterMember},
    history[index]? = some before → history[index + 1]? = some after →
    entry ∈ after.roster.members → entry.status = .left →
    active (rosterEntry before.roster entry.userId) = true →
      ∀ workspaceId ∈ chain.areaKeys.keys,
        workspaceId ∉ chain.retiredAreas →
          ∃ held ∈ history,
            after.roster.rosterVersion ≤ held.roster.rosterVersion ∧
              ∃ row ∈ held.roster.areas,
                row.workspaceId = workspaceId ∧ row.retired = false ∧
                  (chain.areaKeys.listAt workspaceId).getLast? =
                    some row.commitment

theorem mem_liveAreas_of
    {rows : List RosterArea}
    {workspaceId : String} :
    workspaceId ∈ liveAreas (AreaLedger.of rows) ↔
      keyRowsOf workspaceId rows ≠ [] ∧
        ∀ row ∈ rows, row.workspaceId = workspaceId →
          row.retired = false := by
  simp only [liveAreas, mem_filter, decide_eq_true_eq, mem_keys_of,
    mem_retired_of, not_exists, not_and]
  refine and_congr_right fun _ => forall₂_congr fun row _ => ?_
  cases row.retired <;> simp

theorem nodup_liveAreas (ledger : AreaLedger) :
    (liveAreas ledger).Nodup :=
  ledger.keys.keys_nodup.filter _

theorem rowsOf_take_append_drop (history : List Held) (count : Nat) :
    rowsOf (history.take count) ++ rowsOf (history.drop count) =
      rowsOf history := by
  rw [rowsOf, rowsOf, ← flatMap_append, take_append_drop, rowsOf]

theorem keyRowsOf_append
    (workspaceId : String)
    (before after : List RosterArea) :
    keyRowsOf workspaceId (before ++ after) =
      keyRowsOf workspaceId before ++ keyRowsOf workspaceId after :=
  entriesOf_append _ _ _

variable {history : List Held}

theorem mem_rowsOf
    {row : RosterArea} :
    row ∈ rowsOf history ↔
      ∃ held ∈ history, row ∈ held.roster.areas :=
  mem_flatMap

/-- No later roster names an area that an earlier one retired. -/
theorem Lawful.closed
    (lawful : Lawful (rowsOf history))
    {index laterIndex : Nat}
    {held later : Held}
    (isHeld : history[index]? = some held)
    (isLater : history[laterIndex]? = some later)
    (above : index < laterIndex)
    {row : RosterArea}
    (member : row ∈ held.roster.areas)
    (retired : row.retired = true)
    {laterRow : RosterArea}
    (laterMember : laterRow ∈ later.roster.areas) :
    laterRow.workspaceId ≠ row.workspaceId := by
  obtain ⟨inside, rfl⟩ := List.getElem?_eq_some_iff.mp isHeld
  obtain ⟨rowsBefore, rowsAfter, isRows⟩ := append_of_mem member
  have split :
      rowsOf history =
        (rowsOf (history.take index) ++ rowsBefore) ++
          row :: (rowsAfter ++ rowsOf (history.drop (index + 1))) := by
    have here : rowsOf (history.drop index) =
        history[index].roster.areas ++
          rowsOf (history.drop (index + 1)) := by
      rw [drop_eq_getElem_cons inside]
      rfl
    rw [← rowsOf_take_append_drop history index, here, isRows]
    simp only [append_assoc, cons_append]
  refine subject_ne_of_closed lawful.numbered split retired ?_
  refine mem_append_right _ (mem_rowsOf.mpr ⟨later, ?_, laterMember⟩)
  rw [mem_iff_getElem?]
  refine ⟨laterIndex - (index + 1), ?_⟩
  rw [getElem?_drop, show index + 1 + (laterIndex - (index + 1)) =
    laterIndex by omega]
  exact isLater

theorem getLast?_keyRowsOf
    {count : Nat}
    {workspaceId : String}
    (after : keyRowsOf workspaceId (rowsOf (history.drop count)) ≠ []) :
    ∃ held ∈ history.drop count, ∃ row ∈ held.roster.areas,
      row.workspaceId = workspaceId ∧ row.retired = false ∧
        (keyRowsOf workspaceId (rowsOf history)).getLast? = some row := by
  have isLast := getLast?_eq_some_getLast after
  have member := getLast_mem after
  obtain ⟨inRows, isKey⟩ := mem_filter.mp member
  simp only [Bool.and_eq_true, decide_eq_true_eq, Bool.not_eq_true']
    at isKey
  obtain ⟨held, inHistory, inRoster⟩ := mem_rowsOf.mp inRows
  refine ⟨held, inHistory, _, inRoster, isKey.1, isKey.2, ?_⟩
  rw [← rowsOf_take_append_drop history count, keyRowsOf_append,
    getLast?_append_of_ne_nil _ after]
  exact isLast

section

variable {P : Primitives}

/-- A live area has a key row at or after the roster that rotates it. -/
theorem keyRowsOf_drop_ne_nil
    {history : List Held}
    {index : Nat}
    {after : Held}
    (isAfter : history[index + 1]? = some after)
    (rotated : ∀ workspaceId ∈
      liveAreas (AreaLedger.of (rowsOf (history.take (index + 1)))),
      ∃ row ∈ after.roster.areas, row.workspaceId = workspaceId)
    {workspaceId : String}
    (live : workspaceId ∈ liveAreas (AreaLedger.of (rowsOf history))) :
    keyRowsOf workspaceId (rowsOf (history.drop (index + 1))) ≠ [] := by
  obtain ⟨listed, unretired⟩ := mem_liveAreas_of.mp live
  have unretiredBefore : ∀ row ∈ rowsOf (history.take (index + 1)),
      row.workspaceId = workspaceId → row.retired = false := by
    intro row member
    refine unretired row ?_
    rw [← rowsOf_take_append_drop history (index + 1)]
    exact mem_append_left _ member
  by_cases before :
      keyRowsOf workspaceId (rowsOf (history.take (index + 1))) = []
  · rw [← rowsOf_take_append_drop history (index + 1), keyRowsOf_append,
      before, nil_append] at listed
    exact listed
  · obtain ⟨row, member, same⟩ := rotated workspaceId
      (mem_liveAreas_of.mpr ⟨before, unretiredBefore⟩)
    have inDrop : row ∈ rowsOf (history.drop (index + 1)) := by
      refine mem_rowsOf.mpr ⟨after, ?_, member⟩
      rw [mem_iff_getElem?]
      exact ⟨0, by rw [getElem?_drop]; exact isAfter⟩
    have opens : row.retired = false := by
      refine unretired row ?_ same
      rw [← rowsOf_take_append_drop history (index + 1)]
      exact mem_append_right _ inDrop
    refine ne_nil_of_mem (a := row) ?_
    rw [keyRowsOf, entriesOf, mem_filter]
    simp [inDrop, same, opens]

theorem leaving_of_entry
    {previous next : Roster}
    {entry : RosterMember}
    (member : entry ∈ next.members)
    (left : entry.status = .left)
    (wasActive : active (rosterEntry previous entry.userId) = true) :
    leaving previous next = true :=
  any_eq_true.mpr ⟨entry, member, by simp [left, wasActive]⟩

/-- Every accepted chain has its areas in order. -/
theorem Primitives.History.areasInOrder
    {chain : ChainBody}
    {history : List Held}
    (isHistory : P.History chain history) :
    AreasInOrder chain history := by
  have standing := isHistory.standing
  have line := standing.areaLine
  have lawful := line.lawful
  have kept : ledgerOf (some chain.kept) =
      AreaLedger.of (rowsOf history) := line.ledger
  have keysAre : chain.areaKeys = (AreaLedger.of (rowsOf history)).keys :=
    congrArg AreaLedger.keys kept
  have rootsAre : chain.areaRoots = (AreaLedger.of (rowsOf history)).roots :=
    congrArg AreaLedger.roots kept
  have retiredAre : ∀ workspaceId, workspaceId ∈ chain.retiredAreas ↔
      workspaceId ∈ (AreaLedger.of (rowsOf history)).retired := by
    intro workspaceId
    rw [← kept]
    exact mem_toFinset.symm
  have isLatest := mem_of_getLast? standing.latest
  have kinds : ∀ held ∈ history, held.roster.kind = chain.kind := by
    intro held member
    rw [standing.kind]
    exact line.kinds held member chain.latest isLatest
  have rotated {index : Nat} {before after : Held} {entry : RosterMember}
      (family : chain.kind = .family)
      (isBefore : history[index]? = some before)
      (isAfter : history[index + 1]? = some after)
      (member : entry ∈ after.roster.members)
      (left : entry.status = .left)
      (wasActive : active (rosterEntry before.roster entry.userId) = true) :
      ∀ workspaceId ∈
        liveAreas (AreaLedger.of (rowsOf (history.take (index + 1)))),
        ∃ row ∈ after.roster.areas, row.workspaceId = workspaceId := by
    refine line.rotated isBefore isAfter ?_
      (leaving_of_entry member left wasActive)
    rw [kinds after (mem_of_getElem? isAfter), family]
  exact {
    digests := standing.digests
    versions := standing.keyLine.versions
    kinds := kinds
    numbered := map_number_entriesOf lawful.numbered
    keys := by
      intro workspaceId
      rw [keysAre, listAt_keys_of]
    roots := by
      intro workspaceId
      rw [rootsAre, listAt_roots_of]
    listed := by
      intro workspaceId
      rw [keysAre, mem_keys_of]
    rootsListed := by rw [keysAre, rootsAre, keys_roots_of]
    commitments := lawful.commitments
    rootCommitments := lawful.roots
    retired := by
      intro workspaceId
      rw [retiredAre, mem_retired_of]
    closed := by
      intro index laterIndex held later isHeld isLater above row member
        isRetired laterRow laterMember
      exact lawful.closed isHeld isLater above member isRetired laterMember
    live := fun count workspaceId => mem_liveAreas_of
    liveDistinct := fun count => nodup_liveAreas _
    few := by
      intro family count
      refine line.few chain.latest isLatest ?_ count
      rw [kinds chain.latest isLatest, family]
    rotated := by
      intro family index before after entry isBefore isAfter member left
        wasActive
      exact rotated family isBefore isAfter member left wasActive
    current := by
      intro family index before after entry isBefore isAfter member left
        wasActive workspaceId listed unretired
      have live : workspaceId ∈ liveAreas (AreaLedger.of (rowsOf history)) := by
        rw [keysAre] at listed
        rw [retiredAre] at unretired
        simp [liveAreas, listed, unretired]
      have keyed := keyRowsOf_drop_ne_nil isAfter
        (rotated family isBefore isAfter member left wasActive) live
      obtain ⟨held, inDrop, row, inRoster, same, opens, isLast⟩ :=
        getLast?_keyRowsOf keyed
      obtain ⟨place, isHeld⟩ := mem_iff_getElem?.mp inDrop
      rw [getElem?_drop] at isHeld
      refine ⟨held, mem_of_getElem? isHeld, ?_, row, inRoster, same,
        opens, ?_⟩
      · rw [standing.keyLine.versions isHeld,
          standing.keyLine.versions isAfter]
        omega
      · rw [keysAre, listAt_keys_of, getLast?_map, isLast]
        rfl }

/-- The sample family's areas are in order, its removal included. -/
theorem sampleFamily_areasInOrder :
    ∃ chain history, (toy sampleFamily).History chain history ∧
      history.map Held.roster = sampleFamily ∧
      AreasInOrder chain history := by
  obtain ⟨chain, state, accepted, held⟩ := sampleFamily_accepted
  have isHistory := Primitives.History.first rfl accepted
  exact ⟨chain, state.held, isHistory, held, isHistory.areasInOrder⟩

end

end HushOS
