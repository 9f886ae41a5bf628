import HushOS.Drive.Reaching
import HushOS.Toolkit.Digits
import HushOS.Toolkit.Keyset
import Mathlib.Data.Prod.Lex

namespace HushOS

open Toolkit List OrderedMap

namespace Drive

/-!
# Listing the trash

The trash is listed a page at a time, newest first: a page's cursor says where
its last row stood, as text.  Rows below a purged folder are dropped from a page
after its cursor is made, so they never end a listing.
-/

def PAGE_SIZE : Nat := 500

/-- A row of a trash scan: an id, and its trash time in microseconds. -/
structure TrashRow where
  id : Uuid
  micros : Nat
  deriving DecidableEq, Repr

/-- The groups of a uuid's text. -/
def uuidGroups : List Nat :=
  [8, 4, 4, 4, 12]

/-- A trash page's cursor, of its last row. -/
def trashCursor (row : TrashRow) : List Char :=
  Nat.toDigits 10 row.micros ++ '.' :: Digits.groupsText uuidGroups row.id

/-- `TRASH_CURSOR_PATTERN`: up to 18 digits, a point, and a uuid. -/
def isTrashCursor (cursor : List Char) : Bool :=
  let digits := cursor.takeWhile Char.isDigit
  1 ≤ digits.length && digits.length ≤ 18 &&
    match cursor.dropWhile Char.isDigit with
    | '.' :: id => Digits.isGroups uuidGroups id
    | _ => false

/-- `parseTrashCursor`; the id as Postgres reads a uuid. -/
def parseTrashCursor (cursor : List Char) : Option TrashRow :=
  if isTrashCursor cursor then
    some
      { id := Digits.readHex 0 ((cursor.dropWhile (· ≠ '.')).drop 1)
        micros := Nat.ofDigitChars 10 (cursor.takeWhile (· ≠ '.')) 0 }
  else
    none

/-- The rows of a workspace in the trash by themselves and not purged. -/
def trashRows (db : Database) (workspaceId : Uuid) : List TrashRow :=
  (db.nodes.select fun _ row =>
    row.workspaceId = workspaceId && row.trashedAt.isSome &&
      row.purgedAt.isNone).map fun entry =>
        { id := entry.1, micros := entry.2.trashedAt.getD 0 }

/-- Keyset on the order itself: older, or as old with a later id. -/
def afterTrashCursor (after row : TrashRow) : Bool :=
  row.micros < after.micros ||
    (row.micros = after.micros && after.id < row.id)

/-- Newest first, the id breaking ties. -/
def newestFirst (first second : TrashRow) : Bool :=
  second.micros < first.micros ||
    (second.micros = first.micros && first.id ≤ second.id)

/-- A listed node, with its chain for context. -/
structure TrashItem where
  id : Uuid
  node : Node
  ancestors : List (Uuid × Node)
  /-- An ancestor is itself in the trash: a restore needs a new home. -/
  parentTrashed : Bool

/-- What a row is listed as; nothing when its walk finds it below a purged node. -/
def trashItem (db : Database) (row : TrashRow) : Option TrashItem :=
  match walk db row.id with
  | none => none
  | some chain =>
    if chain.purged then
      none
    else
      let ancestors := chain.ancestors.filterMap fun ancestor =>
        (db.nodes.get? ancestor.id).map fun node => (ancestor.id, node)
      some
        { id := row.id
          node := chain.node
          ancestors := ancestors
          parentTrashed := ancestors.any fun entry =>
            entry.2.trashedAt.isSome }

/-- A page of the trash. -/
structure TrashPage where
  items : List TrashItem
  nextCursor : Option (List Char)

/-- The page of the trash after a cursor. -/
def trashPage
    (db : Database)
    (workspaceId : Uuid)
    (after : Option TrashRow)
    (limit : Nat) : TrashPage :=
  let ids := (((trashRows db workspaceId).filter fun row =>
    after.all fun cursor => afterTrashCursor cursor row).mergeSort
      newestFirst).take (limit + 1)
  { items := (ids.take limit).filterMap (trashItem db)
    nextCursor :=
      if limit < ids.length then
        (if limit = 0 then none else ids[limit - 1]?).map trashCursor
      else
        none }

/-- `listTrash`; nothing when the cursor is malformed, and it throws. -/
def listTrash
    (db : Database)
    (workspaceId : Uuid)
    (after : Option (List Char))
    (limit : Option Nat) : Option TrashPage :=
  let limit := min (limit.getD PAGE_SIZE) PAGE_SIZE
  match after with
  | none => some (trashPage db workspaceId none limit)
  | some cursor =>
    (parseTrashCursor cursor).map fun after =>
      trashPage db workspaceId (some after) limit

section Following

variable (states : Nat → Database) (workspaceId : Uuid) (limit : Option Nat)

/-- What each page is asked with, none once no cursor was given. -/
def trashCursorAt : Nat → Option (Option (List Char))
  | 0 => some none
  | pages + 1 =>
    (trashCursorAt pages).bind fun after =>
      (listTrash (states pages) workspaceId after limit).bind fun page =>
        page.nextCursor.map some

/-- The items of a page, none once the listing has ended. -/
def trashItemsAt (pages : Nat) : List TrashItem :=
  match trashCursorAt states workspaceId limit pages with
  | none => []
  | some after =>
    ((listTrash (states pages) workspaceId after limit).map
      TrashPage.items).getD []

/-- What the first pages of a listing have. -/
def trashListing : Nat → List TrashItem
  | 0 => []
  | pages + 1 =>
    trashListing pages ++ trashItemsAt states workspaceId limit pages

end Following

/-- A node in the trash by itself, not purged and not below a purged node. -/
def InTrash (db : Database) (workspaceId id at_ : Nat) : Prop :=
  ∃ row, db.nodes.get? id = some row ∧ row.workspaceId = workspaceId ∧
    row.trashedAt = some at_ ∧ row.purgedAt = none ∧
    ∀ above, Lineage db.nodes id above → ∀ other ∈ above, ∀ otherRow,
      db.nodes.get? other = some otherRow → otherRow.purgedAt = none

/-- Ids have 128 bits, and times before the 19th digit of their microseconds. -/
def Stamped (db : Database) : Prop :=
  ∀ id row, db.nodes.get? id = some row →
    id < 2 ^ 128 ∧ ∀ at_, row.trashedAt = some at_ → at_ < 10 ^ 18

section Keys

/-- Where a row stands: newest first, then by id. -/
def TrashRow.key (row : TrashRow) : ℕᵒᵈ ×ₗ ℕ :=
  toLex (OrderDual.toDual row.micros, row.id)

/-- The row that stands at a place. -/
def rowAt (key : ℕᵒᵈ ×ₗ ℕ) : TrashRow where
  id := (ofLex key).2
  micros := OrderDual.ofDual (ofLex key).1

@[simp] theorem rowAt_key (row : TrashRow) : rowAt row.key = row :=
  rfl

theorem key_injective : Function.Injective TrashRow.key :=
  fun first second same => by
    rw [← rowAt_key first, ← rowAt_key second, same]

theorem key_lt {first second : TrashRow} :
    first.key < second.key ↔
      second.micros < first.micros ∨
        (first.micros = second.micros ∧ first.id < second.id) := by
  rw [TrashRow.key, TrashRow.key, Prod.Lex.toLex_lt_toLex]
  simp only [OrderDual.toDual_lt_toDual, OrderDual.toDual_inj]

theorem afterTrashCursor_eq (after row : TrashRow) :
    afterTrashCursor after row = decide (after.key < row.key) := by
  rw [Bool.eq_iff_iff, decide_eq_true_iff, key_lt]
  simp only [afterTrashCursor, Bool.or_eq_true, Bool.and_eq_true,
    decide_eq_true_eq]
  tauto

theorem newestFirst_eq (first second : TrashRow) :
    newestFirst first second = decide (first.key ≤ second.key) := by
  rw [Bool.eq_iff_iff, decide_eq_true_iff, ← not_lt, key_lt]
  simp only [newestFirst, Bool.or_eq_true, Bool.and_eq_true, decide_eq_true_eq]
  have ids : first.id ≤ second.id ↔ ¬ second.id < first.id := not_lt.symm
  rw [ids]
  by_cases lower : second.id < first.id
  · simp only [lower, not_true_eq_false, and_false, or_false, and_true]
    omega
  · simp only [lower, not_false_eq_true, and_false, or_false, and_true]
    omega

/-- A row's place by its number, falling along the listing. -/
def TrashRow.rank (row : TrashRow) : Nat :=
  row.micros * 2 ^ 128 + (2 ^ 128 - row.id)

theorem rank_lt
    {first second : TrashRow}
    (bounded : first.id < 2 ^ 128)
    (before : first.key < second.key) :
    second.rank < first.rank := by
  unfold TrashRow.rank
  generalize 2 ^ 128 = width at bounded ⊢
  have left : width - second.id ≤ width := Nat.sub_le ..
  have some_ : 0 < width - first.id := Nat.sub_pos_of_lt bounded
  rcases key_lt.mp before with newer | ⟨same, lower⟩
  · have step : (second.micros + 1) * width ≤ first.micros * width :=
      Nat.mul_le_mul_right width newer
    rw [Nat.succ_mul] at step
    omega
  · rw [same]
    exact Nat.add_lt_add_left (Nat.sub_lt_sub_left bounded lower) _

end Keys

section Cursors

/-- A cursor's text splits at its dot into time and id. -/
theorem split_trashCursor (row : TrashRow) :
    (trashCursor row).takeWhile Char.isDigit = Nat.toDigits 10 row.micros ∧
      (trashCursor row).dropWhile Char.isDigit =
        '.' :: Digits.groupsText uuidGroups row.id ∧
      (trashCursor row).takeWhile (· ≠ '.') = Nat.toDigits 10 row.micros ∧
      (trashCursor row).dropWhile (· ≠ '.') =
        '.' :: Digits.groupsText uuidGroups row.id := by
  have digits : ∀ char ∈ Nat.toDigits 10 row.micros, char.isDigit = true :=
    fun _ member =>
      Nat.isDigit_of_mem_toDigits (by decide) (by decide) member
  have noPoint : ∀ char ∈ Nat.toDigits 10 row.micros,
      decide (char ≠ '.') = true := by
    intro char member
    have digit := digits char member
    refine decide_eq_true ?_
    rintro rfl
    exact absurd digit (by decide)
  unfold trashCursor
  refine ⟨?_, ?_, ?_, ?_⟩
  · rw [takeWhile_append_of_pos digits]
    simp
  · rw [dropWhile_append_of_pos digits]
    simp
  · rw [takeWhile_append_of_pos noPoint]
    simp
  · rw [dropWhile_append_of_pos noPoint]
    simp

/-- A cursor is read back as the row it was written for. -/
theorem parse_trashCursor
    {row : TrashRow}
    (bounded : row.id < 2 ^ 128)
    (early : row.micros < 10 ^ 18) :
    parseTrashCursor (trashCursor row) = some row := by
  obtain ⟨digits, rest, micros, id⟩ := split_trashCursor row
  have matches_ : isTrashCursor (trashCursor row) = true := by
    have least : 1 ≤ (Nat.toDigits 10 row.micros).length :=
      Nat.length_toDigits_pos
    have most : (Nat.toDigits 10 row.micros).length ≤ 18 :=
      (Nat.length_toDigits_le_iff (by decide) (by decide)).mpr early
    simp [isTrashCursor, digits, rest, least, most,
      Digits.isGroups_groupsText]
  have itsId : Digits.readHex 0 (Digits.groupsText uuidGroups row.id) = row.id := by
    have whole : 16 ^ uuidGroups.sum = 2 ^ 128 := by decide
    rw [Digits.readHex_groupsText, whole, Nat.mod_eq_of_lt bounded,
      Nat.zero_mul, Nat.zero_add]
  rw [parseTrashCursor, if_pos matches_, micros, id, drop_one,
    tail_cons, itsId, Nat.ofDigitChars_toDigits (by decide) (by decide)]

end Cursors

section Pages

variable {db : Database} {workspaceId : Uuid}

theorem mem_trashRows {row : TrashRow} :
    row ∈ trashRows db workspaceId ↔
      ∃ node, db.nodes.get? row.id = some node ∧
        node.workspaceId = workspaceId ∧ node.trashedAt = some row.micros ∧
        node.purgedAt = none := by
  simp only [trashRows, mem_map, Prod.exists, mem_select,
    Bool.and_eq_true, decide_eq_true_eq, Option.isNone_iff_eq_none]
  constructor
  · rintro ⟨id, node, ⟨found, ⟨inside, trashed⟩, kept⟩, rfl⟩
    obtain ⟨at_, isAt⟩ := Option.isSome_iff_exists.mp trashed
    exact ⟨node, found, inside, by simp [isAt], kept⟩
  · rintro ⟨node, found, inside, trashed, kept⟩
    exact ⟨row.id, node, ⟨found, ⟨inside, by simp [trashed]⟩, kept⟩,
      by simp [trashed]⟩

theorem nodup_trashRows :
    ((trashRows db workspaceId).map TrashRow.key).Nodup := by
  have ids : ((trashRows db workspaceId).map TrashRow.id).Nodup := by
    have keys := db.nodes.nodup.sublist
      (filter_sublist.map Prod.fst : ((db.nodes.select fun _ row =>
        row.workspaceId = workspaceId && row.trashedAt.isSome &&
          row.purgedAt.isNone).map Prod.fst).Sublist _)
    simpa [trashRows, OrderedMap.select, Function.comp_def] using keys
  exact (List.Nodup.of_map _ ids).map key_injective

/-- A trash page is a keyset page of the trash rows. -/
theorem trashPage_eq
    (cursor : Option (ℕᵒᵈ ×ₗ ℕ))
    (limit : Nat) :
    trashPage db workspaceId (cursor.map rowAt) limit =
      { items := (Keyset.page TrashRow.key limit (trashRows db workspaceId)
          cursor).filterMap (trashItem db)
        nextCursor := (Keyset.next TrashRow.key limit
          (trashRows db workspaceId) cursor).map
            fun key => trashCursor (rowAt key) } := by
  have scanned : ((trashRows db workspaceId).filter fun row =>
      (cursor.map rowAt).all fun after => afterTrashCursor after row).mergeSort
        newestFirst =
      Keyset.scan TrashRow.key (trashRows db workspaceId) cursor := by
    have order : newestFirst = fun first second =>
        decide (first.key ≤ second.key) :=
      funext fun first => funext (newestFirst_eq first)
    rw [order, Keyset.scan, Keyset.inOrder]
    congr 1
    refine filter_congr fun row _ => ?_
    cases cursor with
    | none => exact (decide_eq_true fun _ none_ => by cases none_).symm
    | some last =>
      rw [Option.map_some, Option.all_some, afterTrashCursor_eq,
        decide_eq_decide]
      exact ⟨fun less _ same => Option.some.inj same ▸ less,
        fun after => after last rfl⟩
  simp only [trashPage, scanned, take_take]
  congr 1
  · rw [Nat.min_eq_left (Nat.le_succ limit)]
    rfl
  · rw [Keyset.next, Keyset.page]
    generalize Keyset.scan TrashRow.key (trashRows db workspaceId) cursor =
      rows
    by_cases longer : limit < rows.length
    · have most : limit < (rows.take (limit + 1)).length := by
        rw [length_take]
        omega
      rw [if_pos most, if_pos longer]
      cases limit with
      | zero => simp
      | succ limit =>
        rw [if_neg (Nat.succ_ne_zero limit), getLast?_eq_getElem?,
          length_take_of_le longer.le, Option.map_map]
        simp only [Nat.add_sub_cancel]
        rw [getElem?_take_of_lt (by omega),
          getElem?_take_of_lt (by omega)]
        rfl
    · have least : ¬ limit < (rows.take (limit + 1)).length := by
        rw [length_take]
        omega
      rw [if_neg least, if_neg longer]
      rfl

theorem trashItem_id
    {row : TrashRow}
    {item : TrashItem}
    (listed : trashItem db row = some item) :
    item.id = row.id ∧ db.nodes.get? row.id = some item.node := by
  unfold trashItem at listed
  cases reached : walk db row.id with
  | none => rw [reached] at listed; cases listed
  | some chain =>
    rw [reached] at listed
    simp only at listed
    split at listed
    · cases listed
    · obtain rfl := Option.some.inj listed
      exact ⟨rfl, (walked_of_walk reached).found⟩

/-- A walk is unpurged when every row on the lineage is. -/
theorem purged_of_walk
    {id : Uuid}
    {chain : Walk}
    (reached : walk db id = some chain) :
    chain.purged = false ↔
      chain.node.purgedAt = none ∧
        ∀ above, Lineage db.nodes id above → ∀ other ∈ above, ∀ otherRow,
          db.nodes.get? other = some otherRow → otherRow.purgedAt = none := by
  obtain ⟨self, rows, climb, _, rfl⟩ := walk_eq_some.mp reached
  have lineage := lineage_of_climb climb
  have each : ∀ {id self rows}, Climb db.nodes id (self :: rows) →
      ∀ row ∈ rows, db.nodes.get? row.1 = some row.2 := by
    intro id self rows
    induction rows generalizing id self with
    | nil => intro _ _ member; cases member
    | cons next rest inductionHypothesis =>
      rintro ⟨_, _, upper⟩ row member
      cases parent : self.2.parentId with
      | none => rw [parent] at upper; cases upper
      | some parentId =>
        rw [parent] at upper
        rcases mem_cons.mp member with rfl | further
        · exact upper.1 ▸ upper.2.1
        · exact inductionHypothesis upper row further
  simp only [walkOf, any_cons, Bool.or_eq_false_iff,
    Option.isSome_eq_false_iff, Option.isNone_iff_eq_none, any_eq_false,
    Option.not_isSome_iff_eq_none]
  refine and_congr_right fun _ => ⟨?_, ?_⟩
  · intro kept above itsLineage other on otherRow found
    rw [lineage_unique itsLineage lineage] at on
    obtain ⟨row, member, rfl⟩ := mem_map.mp on
    have there := each climb row member
    rw [found] at there
    exact Option.some.inj there ▸ kept row member
  · intro kept row member
    exact kept _ lineage row.1 (mem_map_of_mem member) row.2
      (each climb row member)

/-- A trash row is listed exactly when it is in the trash. -/
theorem trashItem_isSome
    (stands : Reached db)
    {row : TrashRow} :
    row ∈ trashRows db workspaceId ∧ (trashItem db row).isSome = true ↔
      InTrash db workspaceId row.id row.micros := by
  constructor
  · rintro ⟨there, listed⟩
    obtain ⟨node, found, inside, trashed, kept⟩ := mem_trashRows.mp there
    obtain ⟨chain, reached⟩ := stands.walks found
    refine ⟨node, found, inside, trashed, kept, ?_⟩
    refine ((purged_of_walk reached).mp ?_).2
    simpa [trashItem, reached] using listed
  · rintro ⟨node, found, inside, trashed, kept, above⟩
    refine ⟨mem_trashRows.mpr ⟨node, found, inside, trashed, kept⟩, ?_⟩
    obtain ⟨chain, reached⟩ := stands.walks found
    have same := (walked_of_walk reached).found
    rw [found] at same
    have kept_ := (purged_of_walk reached).mpr
      ⟨Option.some.inj same ▸ kept, above⟩
    simp [trashItem, reached, kept_]

end Pages

section Listing

variable {states : Nat → Database} {workspaceId : Uuid} {limit : Option Nat}

/-- The limit a page is read with. -/
def limitOf (limit : Option Nat) : Nat :=
  min (limit.getD PAGE_SIZE) PAGE_SIZE

theorem parse_of_next
    {db : Database}
    {cursor : Option (ℕᵒᵈ ×ₗ ℕ)}
    {last : ℕᵒᵈ ×ₗ ℕ}
    (stamped : Stamped db)
    (more : Keyset.next TrashRow.key (limitOf limit) (trashRows db workspaceId)
      cursor = some last) :
    parseTrashCursor (trashCursor (rowAt last)) = some (rowAt last) := by
  obtain ⟨row, there, rfl⟩ := Keyset.mem_of_next more
  obtain ⟨node, found, _, trashed, _⟩ := mem_trashRows.mp there
  obtain ⟨bounded, early⟩ := stamped row.id node found
  exact parse_trashCursor bounded (early _ trashed)

/-- The rows a listing's pages are of. -/
def rowsAt
    (states : Nat → Database)
    (workspaceId : Uuid)
    (pages : Nat) : List TrashRow :=
  trashRows (states pages) workspaceId

/-- The cursors followed are those of the keyset. -/
theorem trashCursorAt_eq
    (stamped : ∀ pages, Stamped (states pages))
    (pages : Nat) :
    trashCursorAt states workspaceId limit pages =
        (Keyset.cursorAt TrashRow.key (limitOf limit)
          (rowsAt states workspaceId) pages).map
            (Option.map fun key => trashCursor (rowAt key)) ∧
      ∀ cursor, Keyset.cursorAt TrashRow.key (limitOf limit)
          (rowsAt states workspaceId) pages = some cursor →
        listTrash (states pages) workspaceId
            (cursor.map fun key => trashCursor (rowAt key)) limit =
          some (trashPage (states pages) workspaceId (cursor.map rowAt)
            (limitOf limit)) := by
  induction pages with
  | zero =>
    refine ⟨rfl, ?_⟩
    rintro cursor first
    obtain rfl := Option.some.inj first
    rfl
  | succ pages inductionHypothesis =>
    obtain ⟨before, asks⟩ := inductionHypothesis
    constructor
    · rw [trashCursorAt, Keyset.cursorAt, before]
      cases isCursor : Keyset.cursorAt TrashRow.key (limitOf limit)
          (rowsAt states workspaceId) pages with
      | none => rfl
      | some cursor =>
        simp only [Option.map_some, Option.bind_some]
        rw [asks cursor isCursor, Option.bind_some, trashPage_eq]
        simp only [Option.map_map]
        rfl
    · intro cursor goes
      obtain ⟨_, last, _, isNext, rfl⟩ := Keyset.cursorAt_succ goes
      have reads := parse_of_next (stamped pages) isNext
      rw [Option.map_some, listTrash]
      simp only [reads, Option.map_some]
      rfl

theorem trashItemsAt_eq
    (stamped : ∀ pages, Stamped (states pages))
    (pages : Nat) :
    trashItemsAt states workspaceId limit pages =
      (Keyset.pageAt TrashRow.key (limitOf limit) (rowsAt states workspaceId)
        pages).filterMap (trashItem (states pages)) := by
  obtain ⟨isCursor, asks⟩ :=
    @trashCursorAt_eq states workspaceId limit stamped pages
  rw [trashItemsAt, isCursor, Keyset.pageAt]
  cases at_ : Keyset.cursorAt TrashRow.key (limitOf limit)
      (rowsAt states workspaceId) pages with
  | none => rfl
  | some cursor =>
    simp only [Option.map_some]
    rw [asks cursor at_, trashPage_eq]
    rfl

theorem trashCursorAt_eq_none
    (stamped : ∀ pages, Stamped (states pages))
    {pages : Nat} :
    trashCursorAt states workspaceId limit pages = none ↔
      Keyset.cursorAt TrashRow.key (limitOf limit) (rowsAt states workspaceId)
        pages = none := by
  rw [(trashCursorAt_eq stamped pages).1, Option.map_eq_none_iff]

/-- An item in the trash is on a page as often as its row. -/
theorem count_trashItemsAt
    (stamped : ∀ pages, Stamped (states pages))
    {pages : Nat}
    (stands : Reached (states pages))
    {row : TrashRow}
    (listed : InTrash (states pages) workspaceId row.id row.micros) :
    ((trashItemsAt states workspaceId limit pages).map
        TrashItem.id).count row.id =
      (Keyset.pageAt TrashRow.key (limitOf limit) (rowsAt states workspaceId)
        pages).count row := by
  obtain ⟨there, isItem⟩ := (trashItem_isSome stands).mpr listed
  have itself : ∀ other ∈ Keyset.pageAt TrashRow.key (limitOf limit)
      (rowsAt states workspaceId) pages, other.id = row.id → other = row := by
    intro other onPage same
    have otherThere : other ∈ trashRows (states pages) workspaceId := by
      unfold Keyset.pageAt at onPage
      split at onPage
      · cases onPage
      · exact (Keyset.mem_of_page onPage).1
    obtain ⟨node, found, _, trashed, _⟩ := mem_trashRows.mp there
    obtain ⟨otherNode, otherFound, _, otherTrashed, _⟩ :=
      mem_trashRows.mp otherThere
    rw [same, found] at otherFound
    obtain rfl := Option.some.inj otherFound
    rw [trashed] at otherTrashed
    cases other
    cases row
    simp_all
  rw [trashItemsAt_eq stamped]
  revert itself
  generalize Keyset.pageAt TrashRow.key (limitOf limit)
    (rowsAt states workspaceId) pages = rows
  induction rows with
  | nil => intro _; rfl
  | cons other rest inductionHypothesis =>
    intro itself
    have further := inductionHypothesis fun another member =>
      itself another (mem_cons_of_mem other member)
    rw [filterMap_cons, count_cons, ← further]
    cases item : trashItem (states pages) other with
    | none =>
      have differs : ¬ (other == row) = true := by
        intro same
        rw [eq_of_beq same] at item
        rw [item] at isItem
        cases isItem
      simp [differs]
    | some found =>
      have itsId := (trashItem_id item).1
      rw [map_cons, count_cons, itsId]
      by_cases same : other.id = row.id
      · have equal := itself other mem_cons_self same
        simp [equal]
      · have differs : other ≠ row := fun equal => same (equal ▸ rfl)
        simp [same, differs]

/-- An item that stays in the trash is listed once. -/
theorem count_trashListing
    (stamped : ∀ pages, Stamped (states pages))
    (stands : ∀ pages, Reached (states pages))
    (positive : 0 < limitOf limit)
    {row : TrashRow}
    {pages : Nat}
    (ended : trashCursorAt states workspaceId limit pages = none)
    (stays : ∀ earlier < pages,
      InTrash (states earlier) workspaceId row.id row.micros) :
    ((trashListing states workspaceId limit pages).map
      TrashItem.id).count row.id = 1 := by
  have distinct : ∀ pages,
      ((rowsAt states workspaceId pages).map TrashRow.key).Nodup :=
    fun _ => nodup_trashRows
  have counts : ∀ most ≤ pages,
      ((trashListing states workspaceId limit most).map
          TrashItem.id).count row.id =
        (Keyset.listing TrashRow.key (limitOf limit)
          (rowsAt states workspaceId) most).count row := by
    intro most within
    induction most with
    | zero => rfl
    | succ most inductionHypothesis =>
      rw [trashListing, Keyset.listing, map_append, count_append,
        count_append, inductionHypothesis (by omega),
        count_trashItemsAt stamped (stands most) (stays most within)]
  rw [counts pages le_rfl]
  refine count_eq_one_of_mem (Keyset.nodup_listing distinct pages)
    (Keyset.mem_listing positive distinct
      ((trashCursorAt_eq_none stamped).mp ended) fun earlier before => ?_)
  exact ((trashItem_isSome (stands earlier)).mpr (stays earlier before)).1

theorem trashListing_ends (stamped : ∀ pages, Stamped (states pages)) :
    ∃ pages, trashCursorAt states workspaceId limit pages = none := by
  have ends : ∃ pages, Keyset.cursorAt TrashRow.key (limitOf limit)
      (rowsAt states workspaceId) pages = none := by
    refine Keyset.ends (fun key => (rowAt key).rank) ?_
    intro pages _ row there other _ before
    obtain ⟨node, found, _⟩ := mem_trashRows.mp there
    exact rank_lt (stamped pages row.id node found).1 before
  obtain ⟨pages, ended⟩ := ends
  exact ⟨pages, (trashCursorAt_eq_none stamped).mpr ended⟩

/-- With no writes between pages the listing is the trash in order. -/
theorem trashListing_eq
    (stamped : ∀ pages, Stamped (states pages))
    (positive : 0 < limitOf limit)
    (same : ∀ pages, states pages = states 0)
    {pages : Nat}
    (ended : trashCursorAt states workspaceId limit pages = none) :
    trashListing states workspaceId limit pages =
      (Keyset.inOrder TrashRow.key
        (trashRows (states 0) workspaceId)).filterMap
          (trashItem (states 0)) := by
  have rows : ∀ pages, rowsAt states workspaceId pages =
      trashRows (states 0) workspaceId :=
    fun pages => congrArg (fun db => trashRows db workspaceId) (same pages)
  have whole := Keyset.listing_eq positive nodup_trashRows rows
    ((trashCursorAt_eq_none stamped).mp ended)
  rw [← whole]
  clear whole ended
  induction pages with
  | zero => rfl
  | succ pages inductionHypothesis =>
    rw [trashListing, Keyset.listing, inductionHypothesis,
      filterMap_append, trashItemsAt_eq stamped, same pages]

end Listing

/-- The tables at each page: a run before the first, writes between two. -/
def tablesAt (before : List Op) (between : Nat → List Op) : Nat → Database
  | 0 => run .empty before
  | pages + 1 => run (tablesAt before between pages) (between pages)

theorem reached_tablesAt
    (before : List Op)
    (between : Nat → List Op)
    (pages : Nat) :
    Reached (tablesAt before between pages) := by
  induction pages with
  | zero => exact reached_empty.run before
  | succ pages inductionHypothesis => exact inductionHypothesis.run _

/-- Whether an item comes before another: newer, or as new with a lower id. -/
def TrashItem.Before (first second : TrashItem) : Prop :=
  ∃ newer older, first.node.trashedAt = some newer ∧
    second.node.trashedAt = some older ∧
    (older < newer ∨ (newer = older ∧ first.id < second.id))

/-- What following the cursor over a run lists. -/
structure ListsTrash
    (before : List Op)
    (between : Nat → List Op)
    (workspaceId : Uuid)
    (limit : Option Nat) : Prop where
  /-- Every cursor a page gave is read. -/
  reads : ∀ pages after,
    trashCursorAt (tablesAt before between) workspaceId limit pages =
      some after →
    (listTrash (tablesAt before between pages) workspaceId after
      limit).isSome = true
  /-- No cursor is given in the end. -/
  ends : ∃ pages,
    trashCursorAt (tablesAt before between) workspaceId limit pages = none
  /-- With no write between, what is listed is the trash, newest first. -/
  still : (∀ pages, between pages = []) → ∀ pages,
    trashCursorAt (tablesAt before between) workspaceId limit pages = none →
    (trashListing (tablesAt before between) workspaceId limit
        pages).Pairwise TrashItem.Before ∧
      ∀ id at_,
        (∃ item ∈ trashListing (tablesAt before between) workspaceId limit
            pages, item.id = id ∧ item.node.trashedAt = some at_) ↔
          InTrash (run .empty before) workspaceId id at_
  /-- What stays in the trash, at one time, is listed once. -/
  stays : ∀ pages,
    trashCursorAt (tablesAt before between) workspaceId limit pages = none →
    ∀ id at_,
      (∀ earlier < pages,
        InTrash (tablesAt before between earlier) workspaceId id at_) →
      ((trashListing (tablesAt before between) workspaceId limit pages).map
        TrashItem.id).count id = 1
  /-- A page that ends the listing leaves nothing after its cursor. -/
  last : ∀ pages after page,
    trashCursorAt (tablesAt before between) workspaceId limit pages =
      some after →
    listTrash (tablesAt before between pages) workspaceId after limit =
      some page →
    page.nextCursor = none →
    ∀ row : TrashRow,
      InTrash (tablesAt before between pages) workspaceId row.id row.micros →
      (∀ text cursor, after = some text → parseTrashCursor text = some cursor →
        afterTrashCursor cursor row = true) →
      ∃ item ∈ page.items, item.id = row.id

/--
Following the cursor lists the trash: every listing ends, one no write lands in
has the whole trash in order, and in any other what stays in the trash is once.
-/
theorem lists_trash
    (before : List Op)
    (between : Nat → List Op)
    (workspaceId : Uuid)
    (limit : Option Nat)
    (some_ : limit ≠ some 0)
    (stamped : ∀ pages, Stamped (tablesAt before between pages)) :
    ListsTrash before between workspaceId limit := by
  have stands := reached_tablesAt before between
  have positive : 0 < limitOf limit := by
    rcases limit with _ | limit
    · decide
    · refine lt_min (Nat.pos_of_ne_zero fun zero => some_ ?_) (by decide)
      exact congrArg some zero
  refine
    { reads := ?_
      ends := trashListing_ends stamped
      still := ?_
      stays := ?_
      last := ?_ }
  · intro pages after goes
    obtain ⟨isCursor, asks⟩ :=
      @trashCursorAt_eq _ workspaceId limit stamped pages
    rw [isCursor] at goes
    obtain ⟨cursor, at_, rfl⟩ := Option.map_eq_some_iff.mp goes
    rw [asks cursor at_]
    rfl
  · intro nothing pages ended
    have same : ∀ pages, tablesAt before between pages =
        tablesAt before between 0 := by
      intro pages
      induction pages with
      | zero => rfl
      | succ pages inductionHypothesis =>
        rw [← inductionHypothesis, tablesAt, nothing pages]
        rfl
    have listed : ∀ row ∈ trashRows (tablesAt before between 0) workspaceId,
        ∀ item, trashItem (tablesAt before between 0) row = some item →
          item.id = row.id ∧ item.node.trashedAt = some row.micros := by
      intro row there item isItem
      obtain ⟨itsId, found⟩ := trashItem_id isItem
      obtain ⟨node, there, _, trashed, _⟩ := mem_trashRows.mp there
      rw [found] at there
      exact ⟨itsId, Option.some.inj there ▸ trashed⟩
    rw [trashListing_eq stamped positive same ended]
    constructor
    · have sorted := Keyset.pairwise_inOrder
        (@nodup_trashRows (tablesAt before between 0) workspaceId)
      refine pairwise_filterMap.mpr
        ((List.Pairwise.and_mem.mp sorted).imp ?_)
      rintro first second ⟨firstThere, secondThere, less⟩ item isItem other
        isOther
      have itsFirst :=
        listed first (Keyset.inOrder_perm.mem_iff.mp firstThere) item isItem
      have itsSecond :=
        listed second (Keyset.inOrder_perm.mem_iff.mp secondThere) other isOther
      refine ⟨first.micros, second.micros, itsFirst.2, itsSecond.2, ?_⟩
      rw [itsFirst.1, itsSecond.1]
      exact key_lt.mp less
    · intro id at_
      constructor
      · rintro ⟨item, member, rfl, trashed⟩
        obtain ⟨row, inOrder, isItem⟩ := mem_filterMap.mp member
        have there := Keyset.inOrder_perm.mem_iff.mp inOrder
        obtain ⟨itsId, itsTime⟩ := listed row there item isItem
        rw [trashed] at itsTime
        obtain rfl := Option.some.inj itsTime
        rw [itsId]
        exact (trashItem_isSome (stands 0)).mp ⟨there, by rw [isItem]; rfl⟩
      · intro inTrash
        obtain ⟨there, isItem⟩ :=
          (@trashItem_isSome _ workspaceId (stands 0) ⟨id, at_⟩).mpr inTrash
        obtain ⟨item, isItem⟩ := Option.isSome_iff_exists.mp isItem
        obtain ⟨itsId, itsTime⟩ := listed _ there item isItem
        exact ⟨item, mem_filterMap.mpr
          ⟨_, Keyset.inOrder_perm.mem_iff.mpr there, isItem⟩, itsId, itsTime⟩
  · intro pages ended id at_ stays
    exact @count_trashListing _ _ _ stamped stands positive ⟨id, at_⟩ pages
      ended stays
  · intro pages after page goes asked final row listed ahead
    obtain ⟨isCursor, asks⟩ :=
      @trashCursorAt_eq _ workspaceId limit stamped pages
    rw [isCursor] at goes
    obtain ⟨cursor, at_, rfl⟩ := Option.map_eq_some_iff.mp goes
    rw [asks cursor at_, trashPage_eq] at asked
    obtain rfl := Option.some.inj asked
    obtain ⟨there, isItem⟩ := (trashItem_isSome (stands pages)).mpr listed
    obtain ⟨item, isItem⟩ := Option.isSome_iff_exists.mp isItem
    have after : Keyset.After cursor row.key := by
      intro last same
      subst same
      cases pages with
      | zero => cases at_
      | succ pages =>
        obtain ⟨_, _, _, isNext, same⟩ := Keyset.cursorAt_succ at_
        obtain rfl := Option.some.inj same
        have read := parse_of_next (stamped pages) isNext
        have less := ahead _ _ rfl read
        rw [afterTrashCursor_eq] at less
        exact of_decide_eq_true less
    have onPage := Keyset.listed_or_after positive nodup_trashRows there after
    rcases onPage with here | ⟨last, more, _⟩
    · exact ⟨item, mem_filterMap.mpr ⟨row, here, isItem⟩,
        (trashItem_id isItem).1⟩
    · rw [more] at final
      cases final

section Binned

/-- Folders made under a root and moved to the trash, two at one time. -/
def binned : List Op :=
  [.openWorkspace 1 none 1000,
    .allocateKeyEpochs 1 10 none 0,
    .createRoot 1 7 100 1 1 true 0,
    .createFolders 1 7
      [⟨101, 100, 2, 1⟩, ⟨102, 100, 3, 1⟩, ⟨103, 100, 4, 1⟩] true 1,
    .trashNode 1 101 (some 7) 5,
    .trashNode 1 102 (some 7) 5,
    .trashNode 1 103 (some 7) 6]

/-- The three folders of the sample are in the trash. -/
theorem binned_inTrash
    {id at_ : Nat}
    (folder : (id, at_) ∈ [(101, 5), (102, 5), (103, 6)]) :
    InTrash (run .empty binned) 1 id at_ := by
  have root : (run .empty binned).nodes.get? 100 = some
      { newNodeRow 1 none .folder 1 1 (some 1) with heightBound := 1 } := by
    decide
  have held : ((run .empty binned).nodes.get? id).any (fun row =>
      row.workspaceId = 1 ∧ row.trashedAt = some at_ ∧ row.purgedAt = none ∧
        row.parentId = some 100) = true := by
    simp only [mem_cons, Prod.mk.injEq, not_mem_nil, or_false]
      at folder
    rcases folder with ⟨rfl, rfl⟩ | ⟨rfl, rfl⟩ | ⟨rfl, rfl⟩ <;> decide
  obtain ⟨row, found, fields⟩ := (Option.any_eq_true _ _).mp held
  obtain ⟨inside, trashed, unpurged, parent⟩ := of_decide_eq_true fields
  refine ⟨row, found, inside, trashed, unpurged, ?_⟩
  intro above lineage other on otherRow there
  have itsLineage : Lineage (run .empty binned).nodes id [100] :=
    ⟨row, found, parent, _, root, rfl⟩
  rw [lineage_unique lineage itsLineage, mem_singleton] at on
  rw [on, root] at there
  exact Option.some.inj there ▸ rfl

theorem binned_tables (pages : Nat) :
    tablesAt binned (fun _ => []) pages = run .empty binned := by
  induction pages with
  | zero => rfl
  | succ pages inductionHypothesis => exact inductionHypothesis

theorem binned_stamped (pages : Nat) :
    Stamped (tablesAt binned (fun _ => []) pages) := by
  have ranges : (run .empty binned).nodes.entries.all (fun entry =>
      decide (entry.1 < 2 ^ 128) && entry.2.trashedAt.all
        fun at_ => decide (at_ < 10 ^ 18)) = true := by
    decide
  rw [binned_tables]
  intro id row found
  have member := mem_entries.mpr found
  have inRange := all_eq_true.mp ranges _ member
  simp only [Bool.and_eq_true, decide_eq_true_eq] at inRange
  refine ⟨inRange.1, fun at_ trashed => ?_⟩
  rw [trashed, Option.all_some] at inRange
  exact of_decide_eq_true inRange.2

/-- A page of no items ends a listing of a trash that has some. -/
theorem lists_nothing :
    ¬ ∀ before between workspaceId limit,
      (∀ pages, Stamped (tablesAt before between pages)) →
        ListsTrash before between workspaceId limit := by
  intro all
  have lists := all binned (fun _ => []) 1 (some 0) binned_stamped
  have nothing : ∀ db after, (listTrash db 1 after (some 0)).bind
      (fun page => page.nextCursor.map some) = (none : Option (Option (List Char))) := by
    intro db after
    cases after with
    | none => simp [listTrash, trashPage]
    | some cursor =>
      cases read : parseTrashCursor cursor with
      | none => simp [listTrash, read]
      | some after => simp [listTrash, read, trashPage]
  have ended : trashCursorAt (tablesAt binned fun _ => []) 1 (some 0) 1 = none :=
    nothing _ none
  have empty : trashListing (tablesAt binned fun _ => []) 1 (some 0) 1 = [] := by
    simp [trashListing, trashItemsAt, trashCursorAt, listTrash, trashPage]
  obtain ⟨item, member, _⟩ :=
    ((lists.still (fun _ => rfl) 1 ended).2 101 5).mpr
      (binned_inTrash (by decide))
  rw [empty] at member
  cases member

/-- With two on a page a cursor is followed, and each folder is there once. -/
theorem lists_trash_binned :
    trashCursorAt (tablesAt binned fun _ => []) 1 (some 2) 1 ≠ none ∧
      ∃ pages, ∀ id ∈ [101, 102, 103],
        ((trashListing (tablesAt binned fun _ => []) 1 (some 2) pages).map
          TrashItem.id).count id = 1 := by
  have lists :=
    lists_trash binned (fun _ => []) 1 (some 2) (by decide) binned_stamped
  have once : ∀ pages,
      trashCursorAt (tablesAt binned fun _ => []) 1 (some 2) pages = none →
      ∀ id ∈ [101, 102, 103],
        ((trashListing (tablesAt binned fun _ => []) 1 (some 2) pages).map
          TrashItem.id).count id = 1 := by
    intro pages ended id member
    obtain ⟨at_, folder⟩ :
        ∃ at_, (id, at_) ∈ [(101, 5), (102, 5), (103, 6)] := by
      simp only [mem_cons, not_mem_nil, or_false] at member
      rcases member with rfl | rfl | rfl
      · exact ⟨5, by simp⟩
      · exact ⟨5, by simp⟩
      · exact ⟨6, by simp⟩
    refine lists.stays pages ended id at_ fun earlier _ => ?_
    rw [binned_tables]
    exact binned_inTrash folder
  constructor
  · intro ended
    have few : ((trashListing (tablesAt binned fun _ => []) 1 (some 2) 1).map
        TrashItem.id).length ≤ 2 := by
      rw [length_map]
      exact (length_filterMap_le _ _).trans (length_take_le _ _)
    have three := subperm_of_subset (by decide : [101, 102, 103].Nodup)
      fun id member => count_pos_iff.mp
        (Nat.lt_of_lt_of_eq Nat.one_pos (once 1 ended id member).symm)
    exact absurd (three.length_le.trans few) (by decide)
  · obtain ⟨pages, ended⟩ := lists.ends
    exact ⟨pages, once pages ended⟩

end Binned

end Drive

end HushOS
