import HushOS.Acceptance.AreaLine

namespace HushOS

open Toolkit List OrderedMap

/-!
# What a chain keeps

The parts of a chain its cache keeps are folded from the history: the areas'
keys, the members' key sets, the reader's wrong entries.  Each part comes out
in the canonical form `checkCache` asks for, whatever the history.
-/

variable {rows : List RosterArea}

theorem mem_keyRowsOf
    {workspaceId : String}
    {row : RosterArea} :
    row ∈ keyRowsOf workspaceId rows ↔
      row ∈ rows ∧ row.workspaceId = workspaceId ∧ row.retired = false := by
  simp [keyRowsOf, entriesOf]

/-- The areas of a lawful ledger are fit to be cached. -/
theorem Lawful.cachedAreasHold
    (lawful : Lawful rows)
    (valid : ∀ row ∈ rows, ∃ format, RosterArea.Valid format row) :
    CachedAreasHold (AreaLedger.of rows).keys (AreaLedger.of rows).roots
      (inOrder (AreaLedger.of rows).retired) where
  ids := by
    intro workspaceId listed
    obtain ⟨row, isKeyRow⟩ :=
      exists_mem_of_ne_nil _ (mem_keys_of.mp listed)
    obtain ⟨member, rfl, _⟩ := mem_keyRowsOf.mp isKeyRow
    obtain ⟨_, rowValid⟩ := valid row member
    exact rowValid.workspaceId
  nonempty := by
    intro list member
    obtain ⟨workspaceId, found⟩ := mem_values.mp member
    have listed := OrderedMap.mem_keys.mpr ⟨list, found⟩
    rw [← listAt_of_get? found, listAt_keys_of, ne_eq,
      map_eq_nil_iff]
    exact mem_keys_of.mp listed
  commitments := by
    intro list member commitment inList
    obtain ⟨workspaceId, found⟩ := mem_values.mp member
    rw [← listAt_of_get? found, listAt_keys_of] at inList
    obtain ⟨row, isKeyRow, rfl⟩ := mem_map.mp inList
    obtain ⟨inRows, _, opens⟩ := mem_keyRowsOf.mp isKeyRow
    obtain ⟨_, rowValid⟩ := valid row inRows
    exact rowValid.commitment opens
  beside := keys_roots_of rows
  lengths := by
    intro workspaceId
    rw [listAt_keys_of, listAt_roots_of, length_map, length_map]
  roots := by
    intro workspaceId root inList
    rw [listAt_roots_of] at inList
    obtain ⟨row, isKeyRow, isRoot⟩ := mem_map.mp inList
    obtain ⟨inRows, _, opens⟩ := mem_keyRowsOf.mp isKeyRow
    obtain ⟨format, rowValid⟩ := valid row inRows
    cases format with
    | one =>
      rw [rowValid.rootless rfl] at isRoot
      simp at isRoot
    | two =>
      obtain ⟨given, isGiven, digest⟩ := rowValid.root opens rfl
      rw [isGiven, Option.some.injEq] at isRoot
      exact isRoot ▸ digest
  retired_ids := by
    intro workspaceId retired
    obtain ⟨row, member, _, rfl⟩ := mem_retired_of.mp (mem_inOrder.mp retired)
    obtain ⟨_, rowValid⟩ := valid row member
    exact rowValid.workspaceId
  retired_sorted := ascending_inOrder _
  retired_listed := by
    intro workspaceId retired
    exact lawful.retired_subset (mem_inOrder.mp retired)

/-- An area's last row agrees with its cached lists. -/
theorem Lawful.cachedRowHolds
    {before after : List RosterArea}
    {row : RosterArea}
    (lawful : Lawful (before ++ row :: after))
    (last : ∀ later ∈ after, later.workspaceId ≠ row.workspaceId) :
    CachedRowHolds (AreaLedger.of (before ++ row :: after)).keys
      (AreaLedger.of (before ++ row :: after)).roots
      (inOrder (AreaLedger.of (before ++ row :: after)).retired) row := by
  have follows := lawful.numbered before row after rfl
  have noneAfter : keyRowsOf row.workspaceId after = [] := by
    rw [eq_nil_iff_forall_not_mem]
    intro later isKeyRow
    obtain ⟨member, same, _⟩ := mem_keyRowsOf.mp isKeyRow
    exact last later member same
  have keyRowsAre :
      keyRowsOf row.workspaceId (before ++ row :: after) =
        keyRowsOf row.workspaceId before ++
          if row.retired = false then [row] else [] := by
    have split :
        keyRowsOf row.workspaceId (before ++ row :: after) =
          keyRowsOf row.workspaceId (before ++ [row]) ++
            keyRowsOf row.workspaceId after := by
      rw [keyRowsOf, keyRowsOf, keyRowsOf, ← entriesOf_append,
        append_assoc]
      rfl
    rw [split, noneAfter, append_nil, keyRowsOf_concat]
    simp
  have count : (keyRowsOf row.workspaceId before).length + 1 =
      row.workspaceKeyVersion := follows.number_eq.symm
  exact {
    tombstone := by
      intro retired
      have listed := lawful.known row (by simp) retired
      have inKeys := mem_keys_of.mpr listed
      refine ⟨mem_inOrder.mpr (mem_retired_of.mpr
        ⟨row, by simp, retired, rfl⟩), ?_⟩
      rw [get?_eq_listAt inKeys, Option.map_some, listAt_keys_of,
        length_map, keyRowsAre]
      simp only [retired, Bool.true_eq_false, ↓reduceIte, append_nil,
        Option.some.injEq]
      omega
    latest := by
      intro opens
      have inKeys : row.workspaceId ∈
          (AreaLedger.of (before ++ row :: after)).keys.keys := by
        rw [mem_keys_of, keyRowsAre]
        simp [opens]
      rw [get?_eq_listAt inKeys, Option.map_some,
        Option.bind_some, listAt_keys_of, listAt_roots_of, keyRowsAre]
      simp only [opens, ↓reduceIte, length_map, length_append,
        length_singleton, map_append, map_cons, map_nil,
        getLast?_concat, mem_inOrder, true_and, Option.some.injEq]
      refine ⟨count, ?_⟩
      intro retired
      obtain ⟨other, member, isRetired, same⟩ := mem_retired_of.mp retired
      rw [mem_append, mem_cons] at member
      rcases member with earlier | rfl | later
      · have unclosed := follows.unclosed other earlier same
        rw [isRetired] at unclosed
        simp at unclosed
      · rw [isRetired] at opens
        simp at opens
      · exact last other later same }

/-- Areas named once each are as many as the rows. -/
theorem Lawful.length_keys
    (lawful : Lawful rows)
    (distinct : (rows.map RosterArea.workspaceId).Nodup) :
    (AreaLedger.of rows).keys.keys.length = rows.length := by
  have same : (AreaLedger.of rows).keys.keys.Perm
      (rows.map RosterArea.workspaceId) := by
    refine (perm_ext_iff_of_nodup
      (AreaLedger.of rows).keys.keys_nodup distinct).mpr ?_
    intro workspaceId
    rw [mem_keys_of, mem_map]
    constructor
    · intro listed
      obtain ⟨row, isKeyRow⟩ := exists_mem_of_ne_nil _ listed
      obtain ⟨member, own, _⟩ := mem_keyRowsOf.mp isKeyRow
      exact ⟨row, member, own⟩
    · rintro ⟨row, member, rfl⟩
      cases retired : row.retired with
      | true =>
        exact lawful.known row member retired
      | false =>
        exact ne_nil_of_mem
          (mem_keyRowsOf.mpr ⟨member, rfl, retired⟩)
  rw [same.length_eq, length_map]

theorem AreaLedger.of_kept (rows : List RosterArea) :
    ({ keys := (AreaLedger.of rows).keys
       roots := (AreaLedger.of rows).roots
       retired := (inOrder (AreaLedger.of rows).retired).toFinset
       commitments :=
         (AreaLedger.of rows).keys.values.flatten.toFinset
       rootCommitments :=
         ((AreaLedger.of rows).roots.values.flatten.filterMap id).toFinset } :
      AreaLedger) = AreaLedger.of rows := by
  ext1
  · rfl
  · rfl
  · exact toFinset_inOrder _
  · exact (commitments_of rows).symm
  · exact (rootCommitments_of rows).symm

/-- Key sets kept by user, each once, every one of them keys. -/
def KeySetsHold (history : OrderedMap String (List KeySet)) : Prop :=
  ∀ entry ∈ history.entries,
    isUuid entry.1 = true ∧ entry.2.Nodup ∧ ∀ keys ∈ entry.2, keys.Valid

theorem keySetsHold_empty : KeySetsHold .empty := by
  simp [KeySetsHold, OrderedMap.empty]

theorem valid_keySetOf
    {kind : GroupKind}
    {rosterVersion : Nat}
    {entry : RosterMember}
    (valid : entry.Valid kind rosterVersion) :
    (keySetOf entry).Valid :=
  ⟨valid.encryptionPublicKey, valid.signingPublicKey,
    valid.mlDsaPublicKeyDigest⟩

/-- Keeping one more key set leaves the kept sets in order. -/
theorem keySetsHold_keepKeySet
    {history : OrderedMap String (List KeySet)}
    {kind : GroupKind}
    {rosterVersion : Nat}
    {entry : RosterMember}
    (holds : KeySetsHold history)
    (valid : entry.Valid kind rosterVersion) :
    KeySetsHold (keepKeySet history entry) := by
  unfold keepKeySet
  split
  · exact holds
  · next unlisted =>
      rintro ⟨userId, list⟩ member
      have found := get?_eq_some.mpr member
      rw [OrderedMap.push, get?_set] at found
      split at found
      · next own =>
          rw [Option.some.injEq] at found
          subst found own
          have listed (keys : KeySet)
              (inList : keys ∈ history.listAt entry.userId) :
              (history.listAt entry.userId).Nodup ∧ keys.Valid := by
            unfold OrderedMap.listAt at inList ⊢
            cases earlier : history.get? entry.userId with
            | none =>
              simp [earlier] at inList
            | some list =>
              have entryHolds := holds _ (get?_eq_some.mp earlier)
              simp only [earlier, Option.getD_some] at inList ⊢
              exact ⟨entryHolds.2.1, entryHolds.2.2 keys inList⟩
          have distinct : (history.listAt entry.userId).Nodup := by
            rcases eq_nil_or_concat (history.listAt entry.userId) with
              empty | ⟨_, last, whole⟩
            · simp [empty]
            · exact (listed last (by simp [whole])).1
          refine ⟨valid.userId, ?_, ?_⟩
          · refine nodup_append.mpr ⟨distinct, by simp, ?_⟩
            rintro keys inList _ isNew rfl
            rw [mem_singleton] at isNew
            subst isNew
            exact unlisted (contains_iff_mem.mpr inList)
          · intro keys inList
            rcases mem_append.mp inList with earlier | isNew
            · exact (listed keys earlier).2
            · rw [mem_singleton] at isNew
              subst isNew
              exact valid_keySetOf valid
      · exact holds _ (get?_eq_some.mp found)

theorem keySetsHold_foldl
    {entries : List RosterMember}
    {history : OrderedMap String (List KeySet)}
    (holds : KeySetsHold history)
    (valid : ∀ entry ∈ entries, ∃ kind rosterVersion,
      RosterMember.Valid kind rosterVersion entry) :
    KeySetsHold (entries.foldl keepKeySet history) := by
  induction entries generalizing history with
  | nil =>
    exact holds
  | cons entry rest inductionHypothesis =>
    obtain ⟨_, _, entryValid⟩ := valid entry (by simp)
    exact inductionHypothesis (keySetsHold_keepKeySet holds entryValid)
      fun other member => valid other (by simp [member])

/-- Versions in strict order, none past a limit. -/
structure Ascends (versions : List Nat) (limit : Nat) : Prop where
  sorted : versions.Pairwise (· < ·)
  positive : ∀ version ∈ versions, 1 ≤ version
  reached : ∀ version ∈ versions, version ≤ limit

theorem Ascends.concat
    {versions : List Nat}
    {limit : Nat}
    (ascends : Ascends versions limit) :
    Ascends (versions ++ [limit + 1]) (limit + 1) where
  sorted := by
    refine pairwise_append.mpr ⟨ascends.sorted, by simp, ?_⟩
    intro version member next isNext
    rw [mem_singleton] at isNext
    have reached := ascends.reached version member
    omega
  positive := by
    intro version member
    rcases mem_append.mp member with earlier | isNext
    · exact ascends.positive version earlier
    · rw [mem_singleton] at isNext
      omega
  reached := by
    intro version member
    rcases mem_append.mp member with earlier | isNext
    · have reached := ascends.reached version earlier
      omega
    · rw [mem_singleton] at isNext
      omega

theorem Ascends.mono
    {versions : List Nat}
    {limit further : Nat}
    (ascends : Ascends versions limit)
    (le : limit ≤ further) :
    Ascends versions further where
  sorted := ascends.sorted
  positive := ascends.positive
  reached := fun version member => (ascends.reached version member).trans le

theorem Primitives.ascends_judgeOwn
    (P : Primitives)
    (me : Option Reader)
    {own : OwnEntries}
    {roster : Roster}
    {limit : Nat}
    (ascends : Ascends own.wrongAt limit)
    (version : roster.rosterVersion = limit + 1) :
    Ascends (P.judgeOwn me own roster).wrongAt (limit + 1) := by
  unfold Primitives.judgeOwn
  split
  · exact ascends.mono (by omega)
  · dsimp only
    split
    · rw [version]
      exact ascends.concat
    · exact ascends.mono (by omega)

/-- Judging rosters in order notes wrong versions in ascending order. -/
theorem Primitives.ascends_foldl_judgeOwn
    (P : Primitives)
    (me : Option Reader)
    {rosters : List Roster}
    {own : OwnEntries}
    {limit : Nat}
    (ascends : Ascends own.wrongAt limit)
    (versions : ∀ {index : Nat} {roster : Roster},
      rosters[index]? = some roster →
        roster.rosterVersion = limit + index + 1) :
    Ascends (rosters.foldl (P.judgeOwn me) own).wrongAt
      (limit + rosters.length) := by
  induction rosters generalizing own limit with
  | nil =>
    exact ascends
  | cons roster rest inductionHypothesis =>
    have judged := P.ascends_judgeOwn me ascends
      (versions (show (roster :: rest)[0]? = some roster from rfl))
    have later := inductionHypothesis judged
      (by
        intro index other found
        have version := versions
          (show (roster :: rest)[index + 1]? = some other by
            simpa using found)
        omega)
    rw [foldl_cons, length_cons]
    exact later.mono (by omega)

end HushOS
