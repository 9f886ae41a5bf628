import HushOS.Acceptance.KeyLine
import HushOS.Toolkit.Register

namespace HushOS

open Toolkit List OrderedMap

/-!
# The line of areas

The rows of a chain's rosters, in order, are a register of its areas: a key
row adds an area's next key, a retirement row closes the area.  The ledger of a
state is what its history's rows list (`AreaLine.ledger`), and the rows are
lawful: numbered, no commitment twice, nothing retired that was never listed.
-/

/-- The ledger a list of rows leaves. -/
def AreaLedger.of (rows : List RosterArea) : AreaLedger :=
  rows.foldl foldArea .empty

/-- The rows of a history's rosters, in order. -/
def rowsOf (history : List Held) : List RosterArea :=
  history.flatMap fun held => held.roster.areas

/-- The rows of an area's keys, in order. -/
def keyRowsOf (workspaceId : String) (rows : List RosterArea) :
    List RosterArea :=
  entriesOf RosterArea.workspaceId RosterArea.retired workspaceId rows

/-- The areas a ledger lists and has not retired. -/
def liveAreas (ledger : AreaLedger) : List String :=
  ledger.keys.keys.filter fun workspaceId => workspaceId ∉ ledger.retired

theorem AreaLedger.of_concat
    (rows : List RosterArea)
    (row : RosterArea) :
    AreaLedger.of (rows ++ [row]) = foldArea (AreaLedger.of rows) row := by
  simp [AreaLedger.of]

theorem AreaLedger.of_append
    (rows : List RosterArea)
    (roster : Roster) :
    AreaLedger.of (rows ++ roster.areas) =
      foldAreas (AreaLedger.of rows) roster := by
  simp [AreaLedger.of, foldAreas]

theorem keyRowsOf_concat
    (workspaceId : String)
    (rows : List RosterArea)
    (row : RosterArea) :
    keyRowsOf workspaceId (rows ++ [row]) =
      keyRowsOf workspaceId rows ++
        if row.workspaceId = workspaceId ∧ row.retired = false then [row]
        else [] := by
  rw [keyRowsOf, entriesOf_append]
  congr 1
  simp [entriesOf, filter_singleton]

theorem keyRows_concat
    (rows : List RosterArea)
    (row : RosterArea) :
    keyRows (rows ++ [row]) =
      keyRows rows ++ if row.retired = false then [row] else [] := by
  cases retired : row.retired <;>
    simp [keyRows, filter_append, retired]

/-- A column that key rows are pushed to lists an area's in roster order. -/
theorem listAt_of
    {α : Type}
    (column : AreaLedger → OrderedMap String (List α))
    (valueOf : RosterArea → α)
    (empty : column .empty = .empty)
    (folded : ∀ ledger row, column (foldArea ledger row) =
      if row.retired then column ledger
      else (column ledger).push row.workspaceId (valueOf row))
    (rows : List RosterArea)
    (workspaceId : String) :
    (column (AreaLedger.of rows)).listAt workspaceId =
      (keyRowsOf workspaceId rows).map valueOf := by
  induction rows using List.reverseRecOn with
  | nil =>
    rw [AreaLedger.of, foldl_nil, empty]
    rfl
  | append_singleton rows row inductionHypothesis =>
    rw [AreaLedger.of_concat, keyRowsOf_concat, folded]
    cases retired : row.retired with
    | true =>
      simp [inductionHypothesis]
    | false =>
      simp only [Bool.false_eq_true, ↓reduceIte, listAt_push,
        inductionHypothesis, and_true, map_append]
      by_cases same : row.workspaceId = workspaceId
      · subst same
        simp [inductionHypothesis]
      · have differs : workspaceId ≠ row.workspaceId :=
          fun equal => same equal.symm
        simp [same, differs]

/-- The ledger lists an area's key commitments in roster order. -/
theorem listAt_keys_of
    (rows : List RosterArea)
    (workspaceId : String) :
    (AreaLedger.of rows).keys.listAt workspaceId =
      (keyRowsOf workspaceId rows).map RosterArea.commitment :=
  listAt_of AreaLedger.keys _ rfl
    (fun ledger row => by rw [foldArea]; cases row.retired <;> rfl) rows
    workspaceId

/-- The ledger lists an area's root commitments in roster order. -/
theorem listAt_roots_of
    (rows : List RosterArea)
    (workspaceId : String) :
    (AreaLedger.of rows).roots.listAt workspaceId =
      (keyRowsOf workspaceId rows).map RosterArea.rootCommitment :=
  listAt_of AreaLedger.roots _ rfl
    (fun ledger row => by rw [foldArea]; cases row.retired <;> rfl) rows
    workspaceId

variable {rows : List RosterArea}

/-- An area is retired exactly when a retiring row names it. -/
theorem mem_retired_of
    {workspaceId : String} :
    workspaceId ∈ (AreaLedger.of rows).retired ↔
      ∃ row ∈ rows, row.retired = true ∧ row.workspaceId = workspaceId := by
  induction rows using List.reverseRecOn with
  | nil =>
    simp [AreaLedger.of, AreaLedger.empty]
  | append_singleton rows row inductionHypothesis =>
    rw [AreaLedger.of_concat, foldArea]
    cases retired : row.retired with
    | true =>
      simp only [↓reduceIte, Finset.mem_insert, inductionHypothesis,
        mem_append, mem_singleton]
      constructor
      · rintro (rfl | ⟨other, member, rest⟩)
        · exact ⟨row, .inr rfl, retired, rfl⟩
        · exact ⟨other, .inl member, rest⟩
      · rintro ⟨other, member | rfl, otherRetired, same⟩
        · exact .inr ⟨other, member, otherRetired, same⟩
        · exact .inl same.symm
    | false =>
      simp only [Bool.false_eq_true, ↓reduceIte, inductionHypothesis,
        mem_append, mem_singleton]
      constructor
      · rintro ⟨other, member, rest⟩
        exact ⟨other, .inl member, rest⟩
      · rintro ⟨other, member | rfl, otherRetired, same⟩
        · exact ⟨other, member, otherRetired, same⟩
        · simp [retired] at otherRetired

theorem mem_commitments_of
    {commitment : String} :
    commitment ∈ (AreaLedger.of rows).commitments ↔
      commitment ∈ (keyRows rows).map RosterArea.commitment := by
  induction rows using List.reverseRecOn with
  | nil =>
    simp [AreaLedger.of, AreaLedger.empty, keyRows]
  | append_singleton rows row inductionHypothesis =>
    rw [AreaLedger.of_concat, keyRows_concat, foldArea]
    cases retired : row.retired with
    | true =>
      simp [inductionHypothesis]
    | false =>
      simp only [Bool.false_eq_true, ↓reduceIte, Finset.mem_insert,
        inductionHypothesis, map_append, mem_append,
        map_cons, map_nil, mem_singleton]
      exact or_comm

/-- The root commitments in use are those some key row carries. -/
theorem mem_rootCommitments_of
    {root : String} :
    root ∈ (AreaLedger.of rows).rootCommitments ↔
      root ∈ (keyRows rows).filterMap RosterArea.rootCommitment := by
  induction rows using List.reverseRecOn with
  | nil =>
    simp [AreaLedger.of, AreaLedger.empty, keyRows]
  | append_singleton rows row inductionHypothesis =>
    rw [AreaLedger.of_concat, keyRows_concat, foldArea]
    cases retired : row.retired with
    | true =>
      simp [inductionHypothesis]
    | false =>
      cases rooted : row.rootCommitment with
      | none =>
        simp [inductionHypothesis, filterMap_append, rooted]
      | some given =>
        simp only [Bool.false_eq_true, ↓reduceIte, Finset.mem_insert,
          inductionHypothesis, filterMap_append, mem_append,
          filterMap_cons, rooted, filterMap_nil,
          mem_singleton]
        exact or_comm

theorem mem_keys_of
    {workspaceId : String} :
    workspaceId ∈ (AreaLedger.of rows).keys.keys ↔
      keyRowsOf workspaceId rows ≠ [] := by
  induction rows using List.reverseRecOn with
  | nil =>
    simp [AreaLedger.of, AreaLedger.empty, keyRowsOf, entriesOf]
  | append_singleton rows row inductionHypothesis =>
    rw [AreaLedger.of_concat, keyRowsOf_concat, foldArea]
    cases retired : row.retired with
    | true =>
      simp [inductionHypothesis]
    | false =>
      simp only [Bool.false_eq_true, ↓reduceIte,
        mem_keys_push, inductionHypothesis, and_true]
      by_cases same : row.workspaceId = workspaceId
      · simp [same]
      · have differs : workspaceId ≠ row.workspaceId :=
          fun equal => same equal.symm
        simp [same, differs]

theorem keys_roots_of (rows : List RosterArea) :
    (AreaLedger.of rows).roots.keys = (AreaLedger.of rows).keys.keys := by
  induction rows using List.reverseRecOn with
  | nil =>
    rfl
  | append_singleton rows row inductionHypothesis =>
    rw [AreaLedger.of_concat, foldArea]
    cases row.retired with
    | true =>
      exact inductionHypothesis
    | false =>
      simp only [Bool.false_eq_true, ↓reduceIte, keys_push,
        inductionHypothesis]

theorem commitments_of (rows : List RosterArea) :
    (AreaLedger.of rows).commitments =
      (AreaLedger.of rows).keys.values.flatten.toFinset := by
  induction rows using List.reverseRecOn with
  | nil =>
    rfl
  | append_singleton rows row inductionHypothesis =>
    rw [AreaLedger.of_concat, foldArea]
    cases row.retired with
    | true =>
      exact inductionHypothesis
    | false =>
      ext commitment
      simp only [Bool.false_eq_true, ↓reduceIte, Finset.mem_insert,
        inductionHypothesis, mem_toFinset,
        mem_flatten_values_push]

/-- The set of roots is read off the list of roots. -/
theorem rootCommitments_of (rows : List RosterArea) :
    (AreaLedger.of rows).rootCommitments =
      ((AreaLedger.of rows).roots.values.flatten.filterMap id).toFinset := by
  induction rows using List.reverseRecOn with
  | nil =>
    rfl
  | append_singleton rows row inductionHypothesis =>
    rw [AreaLedger.of_concat, foldArea]
    cases row.retired with
    | true =>
      exact inductionHypothesis
    | false =>
      ext root
      have listed :=
        congrArg (root ∈ ·) inductionHypothesis
      simp only [mem_toFinset, mem_filterMap, id_eq,
        exists_eq_right, eq_iff_iff] at listed
      simp only [Bool.false_eq_true, ↓reduceIte, mem_toFinset,
        mem_filterMap, id_eq, exists_eq_right,
        mem_flatten_values_push]
      cases row.rootCommitment with
      | none =>
        simp [listed]
      | some given =>
        simp [listed]

/-- Rows as every chain's are. -/
structure Lawful (rows : List RosterArea) : Prop where
  numbered :
    Numbered RosterArea.workspaceId RosterArea.workspaceKeyVersion
      RosterArea.retired rows
  commitments : ((keyRows rows).map RosterArea.commitment).Nodup
  roots : ((keyRows rows).filterMap RosterArea.rootCommitment).Nodup
  known : ∀ row ∈ rows, row.retired = true →
    keyRowsOf row.workspaceId rows ≠ []

theorem Lawful.nil : Lawful [] where
  numbered := numbered_nil
  commitments := by simp [keyRows]
  roots := by simp [keyRows]
  known := by simp

theorem mayFollow_of_rowFollows
    {row : RosterArea}
    (follows : RowFollows (AreaLedger.of rows) row) :
    MayFollow RosterArea.workspaceId RosterArea.workspaceKeyVersion
      RosterArea.retired rows row where
  number_eq := by
    rw [follows.version, listAt_keys_of, length_map, keyRowsOf]
  unclosed := by
    intro earlier member same
    by_contra closed
    exact follows.live (mem_retired_of.mpr
      ⟨earlier, member, by simpa using closed, same⟩)

/-- A roster that follows the ledger keeps the rows lawful. -/
theorem Lawful.append
    {rows : List RosterArea}
    {previous : Option Roster}
    {next : Roster}
    (lawful : Lawful rows)
    (follows : AreasFollow (AreaLedger.of rows) previous next)
    (sorted : (next.areas.map RosterArea.workspaceId).Pairwise Before) :
    Lawful (rows ++ next.areas) where
  numbered := by
    refine numbered_append lawful.numbered ?_ ?_
    · refine sorted.imp ?_
      rintro first _ before rfl
      exact Before.irrefl first before
    · intro row member
      exact mayFollow_of_rowFollows (follows.rows row member)
  commitments := by
    rw [keyRows, filter_append, map_append, nodup_append]
    refine ⟨lawful.commitments, follows.distinct, ?_⟩
    intro earlier earlierMember new newMember same
    obtain ⟨row, rowMember, rfl⟩ := mem_map.mp newMember
    subst same
    exact follows.fresh row rowMember
      (mem_commitments_of.mpr earlierMember)
  roots := by
    rw [keyRows, filter_append, filterMap_append,
      nodup_append]
    refine ⟨lawful.roots, follows.distinctRoots, ?_⟩
    intro earlier earlierMember new newMember same
    obtain ⟨row, rowMember, rooted⟩ := mem_filterMap.mp newMember
    subst same
    exact follows.freshRoots row rowMember earlier rooted
      (mem_rootCommitments_of.mpr earlierMember)
  known := by
    intro row member retired
    rw [keyRowsOf, entriesOf_append, ne_eq, append_eq_nil_iff, not_and_or]
    left
    rcases mem_append.mp member with earlier | new
    · exact lawful.known row earlier retired
    · have listed := (follows.rows row new).known retired
      rw [listAt_keys_of, ne_eq, map_eq_nil_iff] at listed
      exact listed

theorem Lawful.retired_subset
    (lawful : Lawful rows)
    {workspaceId : String}
    (retired : workspaceId ∈ (AreaLedger.of rows).retired) :
    workspaceId ∈ (AreaLedger.of rows).keys.keys := by
  obtain ⟨row, member, isRetired, rfl⟩ := mem_retired_of.mp retired
  exact mem_keys_of.mpr (lawful.known row member isRetired)

/-- The live areas are the known ones less the retired ones. -/
theorem Lawful.length_liveAreas
    (lawful : Lawful rows) :
    ((liveAreas (AreaLedger.of rows)).length : Int) =
      (AreaLedger.of rows).keys.size - (AreaLedger.of rows).retired.card := by
  have distinct := (AreaLedger.of rows).keys.keys_nodup
  have liveCard :
      (liveAreas (AreaLedger.of rows)).length =
        ((AreaLedger.of rows).keys.keys.toFinset \
          (AreaLedger.of rows).retired).card := by
    have liveDistinct : (liveAreas (AreaLedger.of rows)).Nodup :=
      distinct.filter _
    rw [← toFinset_card_of_nodup liveDistinct]
    congr 1
    ext workspaceId
    simp [liveAreas]
  have subset :
      (AreaLedger.of rows).retired ⊆
        (AreaLedger.of rows).keys.keys.toFinset := by
    intro workspaceId retired
    exact mem_toFinset.mpr (lawful.retired_subset retired)
  have listedCard :
      (AreaLedger.of rows).keys.keys.toFinset.card =
        (AreaLedger.of rows).keys.size := by
    rw [toFinset_card_of_nodup distinct, length_keys]
  have few := Finset.card_le_card subset
  rw [liveCard, Finset.card_sdiff_of_subset subset, listedCard]
  rw [listedCard] at few
  omega

/-- A roster adds its new areas and its retirements to the counts. -/
theorem keys_of_append
    {previous : Option Roster}
    {next : Roster}
    (follows : AreasFollow (AreaLedger.of rows) previous next)
    (sorted : (next.areas.map RosterArea.workspaceId).Pairwise Before) :
    (AreaLedger.of (rows ++ next.areas)).keys.size =
        (AreaLedger.of rows).keys.size +
          (next.areas.filter fun row =>
            !(AreaLedger.of rows).keys.has row.workspaceId).length ∧
      (AreaLedger.of (rows ++ next.areas)).retired.card =
        (AreaLedger.of rows).retired.card +
          (next.areas.filter fun row => row.retired).length := by
  have step :
      ∀ batch : List RosterArea,
        (∀ row ∈ batch, RowFollows (AreaLedger.of rows) row) →
        (batch.map RosterArea.workspaceId).Nodup →
        (AreaLedger.of (rows ++ batch)).keys.size =
            (AreaLedger.of rows).keys.size +
              (batch.filter fun row =>
                !(AreaLedger.of rows).keys.has row.workspaceId).length ∧
          (AreaLedger.of (rows ++ batch)).retired.card =
            (AreaLedger.of rows).retired.card +
              (batch.filter fun row => row.retired).length := by
    intro batch batchFollows distinct
    induction batch using List.reverseRecOn with
    | nil =>
      simp
    | append_singleton batch row inductionHypothesis =>
      simp only [map_append, map_cons, map_nil,
        nodup_append, mem_map, mem_singleton,
        forall_exists_index, and_imp, forall_apply_eq_imp_iff₂,
        forall_eq] at distinct
      obtain ⟨distinct, _, apart⟩ := distinct
      obtain ⟨sizes, cards⟩ := inductionHypothesis
        (fun other member => batchFollows other (by simp [member]))
        distinct
      have rowFollows := batchFollows row (by simp)
      have listedBefore :
          row.workspaceId ∈ (AreaLedger.of (rows ++ batch)).keys.keys ↔
            row.workspaceId ∈ (AreaLedger.of rows).keys.keys := by
        have noEntries : keyRowsOf row.workspaceId batch = [] := by
          rw [keyRowsOf, entriesOf, filter_eq_nil_iff]
          intro other member
          simp [apart other member]
        rw [mem_keys_of, mem_keys_of, keyRowsOf, entriesOf_append]
        simp only [keyRowsOf] at noEntries
        rw [noEntries, append_nil]
        rfl
      rw [← append_assoc, AreaLedger.of_concat, foldArea]
      cases retired : row.retired with
      | true =>
        have listed :
            (AreaLedger.of rows).keys.has row.workspaceId = true := by
          rw [has_iff, mem_keys_of]
          have known := rowFollows.known retired
          rw [listAt_keys_of, ne_eq, map_eq_nil_iff] at known
          exact known
        have unretired :
            row.workspaceId ∉
              (AreaLedger.of (rows ++ batch)).retired := by
          intro found
          obtain ⟨other, member, otherRetired, same⟩ :=
            mem_retired_of.mp found
          rcases mem_append.mp member with inRows | inBatch
          · exact rowFollows.live (mem_retired_of.mpr
              ⟨other, inRows, otherRetired, same⟩)
          · exact apart other inBatch same
        simp only [↓reduceIte, sizes, filter_append,
          filter_singleton, listed, Bool.not_true, cond_false,
          cond_true, Finset.card_insert_of_notMem unretired, cards,
          retired, length_append, length_singleton,
          length_nil]
        omega
      | false =>
        simp only [Bool.false_eq_true, ↓reduceIte, OrderedMap.push,
          size_set, listedBefore, sizes, cards,
          filter_append, filter_singleton, retired,
          cond_false, append_nil, length_append, and_true]
        by_cases listed :
          row.workspaceId ∈ (AreaLedger.of rows).keys.keys
        · simp [has_iff.mpr listed, listed]
        · have notHas :
              (AreaLedger.of rows).keys.has row.workspaceId = false := by
            rw [← Bool.not_eq_true, has_iff]
            exact listed
          simp only [listed, ↓reduceIte, notHas, Bool.not_false,
            cond_true, length_singleton]
          omega
  refine step next.areas follows.rows ?_
  refine sorted.imp ?_
  rintro first _ before rfl
  exact Before.irrefl first before

theorem liveCount_eq
    {previous : Option Roster}
    {next : Roster}
    (lawful : Lawful rows)
    (follows : AreasFollow (AreaLedger.of rows) previous next)
    (sorted : (next.areas.map RosterArea.workspaceId).Pairwise Before) :
    liveCount (AreaLedger.of rows) next.areas =
      (liveAreas (AreaLedger.of (rows ++ next.areas))).length := by
  obtain ⟨sizes, cards⟩ := keys_of_append follows sorted
  rw [(lawful.append follows sorted).length_liveAreas, sizes, cards]
  simp only [liveCount]
  push_cast
  omega

/-- What holds of the areas along a history. -/
structure AreaLine (history : List Held) (state : State) : Prop where
  ledger : state.areas = AreaLedger.of (rowsOf history)
  lawful : Lawful (rowsOf history)
  kinds : ∀ first ∈ history, ∀ second ∈ history,
    first.roster.kind = second.roster.kind
  few : ∀ held ∈ history, held.roster.kind = .family → ∀ count,
    (liveAreas (AreaLedger.of (rowsOf (history.take count)))).length ≤
      MAX_FAMILY_AREAS
  rotated : ∀ {index : Nat} {before after : Held},
    history[index]? = some before → history[index + 1]? = some after →
      after.roster.kind = .family →
      leaving before.roster after.roster = true →
      ∀ workspaceId ∈
        liveAreas (AreaLedger.of (rowsOf (history.take (index + 1)))),
        ∃ row ∈ after.roster.areas, row.workspaceId = workspaceId

theorem AreaLine.start
    {state : State}
    (areas : state.areas = .empty) :
    AreaLine [] state where
  ledger := areas
  lawful := .nil
  kinds := by simp
  few := by simp
  rotated := by simp

theorem AreaLine.resume
    {history : List Held}
    {before state : State}
    (line : AreaLine history before)
    (areas : state.areas = before.areas) :
    AreaLine history state where
  ledger := by rw [areas, line.ledger]
  lawful := line.lawful
  kinds := line.kinds
  few := line.few
  rotated := line.rotated

/-- Holding one more roster keeps the ledger that of the history. -/
theorem AreaLine.hold
    {P : Primitives}
    {history : List Held}
    {state : State}
    (line : AreaLine history state)
    {served : Served Roster}
    (last : state.held.getLast? = history.getLast?)
    (valid : served.value.Valid)
    (holds :
      RosterHolds P state served.value served.statement (some served.copies)
        state.held.getLast?) :
    AreaLine (history ++ [heldAfter state.held.getLast? served])
      (state.hold served) := by
  have follows := holds.areas
  rw [line.ledger] at follows
  have sorted := valid.areas_sorted
  have rows :
      rowsOf (history ++ [heldAfter state.held.getLast? served]) =
        rowsOf history ++ served.value.areas := by
    simp [rowsOf, heldAfter]
  have kindOfLast {held : Held} (member : held ∈ history) :
      served.value.kind = held.roster.kind := by
    cases isLast : history.getLast? with
    | none =>
      simp [getLast?_eq_none_iff.mp isLast] at member
    | some final =>
      have same := holds.kind final (by rw [last, isLast]; rfl)
      rw [same]
      exact line.kinds final (mem_of_getLast? isLast) held member
  exact {
    ledger := by
      rw [rows, AreaLedger.of_append, ← line.ledger]
      rfl
    lawful := by
      rw [rows]
      exact line.lawful.append follows sorted
    kinds := by
      intro first firstMember second secondMember
      rcases mem_append.mp firstMember with firstIn | firstNew
      · rcases mem_append.mp secondMember with secondIn | secondNew
        · exact line.kinds first firstIn second secondIn
        · rw [mem_singleton] at secondNew
          subst secondNew
          exact (kindOfLast firstIn).symm
      · rw [mem_singleton] at firstNew
        subst firstNew
        rcases mem_append.mp secondMember with secondIn | secondNew
        · exact kindOfLast secondIn
        · rw [mem_singleton] at secondNew
          rw [secondNew]
    few := by
      intro held member family count
      have servedFamily : served.value.kind = .family := by
        rcases mem_append.mp member with earlier | new
        · rw [kindOfLast earlier, family]
        · rw [mem_singleton] at new
          subst new
          exact family
      by_cases whole : history.length < count
      · have all :
            (history ++
              [heldAfter state.held.getLast? served]).take count =
              history ++ [heldAfter state.held.getLast? served] := by
          rw [take_of_length_le]
          rw [length_append, length_singleton]
          omega
        have counted := liveCount_eq line.lawful follows sorted
        have few := follows.few servedFamily
        rw [all, rows]
        rw [counted] at few
        exact_mod_cast few
      · rw [take_append_of_le_length (by omega)]
        cases earliest : history with
        | nil =>
          simp [rowsOf, AreaLedger.of, liveAreas, AreaLedger.empty]
        | cons first rest =>
          rw [← earliest]
          have firstMember : first ∈ history := by simp [earliest]
          refine line.few first firstMember ?_ count
          rw [← kindOfLast firstMember, servedFamily]
    rotated := by
      intro index before after isBefore isAfter family leaves workspaceId
        live
      have inside : index < history.length := by
        have bound := (List.getElem?_eq_some_iff.mp isAfter).1
        rw [length_append, length_singleton] at bound
        omega
      rw [getElem?_append_left inside] at isBefore
      by_cases isNew : index + 1 = history.length
      · have takeAll :
            (history ++
              [heldAfter state.held.getLast? served]).take (index + 1) =
              history := by
          rw [isNew]
          simp
        rw [takeAll] at live
        have isServed :
            after = heldAfter state.held.getLast? served := by
          rw [isNew] at isAfter
          simpa using isAfter.symm
        subst isServed
        have isLast : state.held.getLast? = some before := by
          rw [last, getLast?_eq_getElem?, ← isNew]
          simpa using isBefore
        simp only [liveAreas, mem_filter, decide_eq_true_eq] at live
        exact follows.rotated before.roster (by simp [isLast]) family leaves
          workspaceId live.1 live.2
      · rw [getElem?_append_left (by omega)] at isAfter
        rw [take_append_of_le_length (by omega)] at live
        exact line.rotated isBefore isAfter family leaves workspaceId live }

/-- A whole pass keeps the ledger that of the history. -/
theorem AreaLine.passes
    {P : Primitives}
    {history : List Held}
    {state after : State}
    {path : List (Served Roster)}
    (line : AreaLine history state)
    (keyLine : KeyLine P history state)
    (linked : Linked P history.length path)
    (passes : P.Passes state path after) :
    AreaLine (history ++ holdAll state.held.getLast? path) after := by
  induction passes generalizing history with
  | settled _ =>
    simpa [holdAll] using line
  | note refused waiting _ inductionHypothesis =>
    exact inductionHypothesis (line.resume rfl)
      (keyLine.note refused waiting) linked
  | take served chosen _ _ inductionHypothesis =>
    exact inductionHypothesis (line.resume rfl) (keyLine.take chosen)
      linked
  | hold served nothing holds _ inductionHypothesis =>
    obtain ⟨valid, version⟩ := linked.head
    have held := line.hold keyLine.getLast?_held valid holds
    have keyHeld :=
      keyLine.hold nothing version valid.keyVersion_pos holds
    have rest := inductionHypothesis held keyHeld
      (by simpa using linked.tail)
    simpa [State.hold, holdAll] using rest

end HushOS
