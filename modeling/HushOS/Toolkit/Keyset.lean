import Mathlib.Order.Basic
import Mathlib.Data.List.Sort

namespace Toolkit

open List

namespace Keyset

/-!
# Keyset paging

Rows are read a page at a time in the order of their keys, each page the rows
after a cursor, and the cursor of the next page the key of a page's last row.
The rows may be others at each page: what stays among them under one key is
read once.
-/

variable {α : Type u} {κ : Type v} [LinearOrder κ]

/-- Rows in the order of their keys. -/
def inOrder (key : α → κ) (rows : List α) : List α :=
  rows.mergeSort fun first second => decide (key first ≤ key second)

/-- Whether a key comes after a cursor; all do when there is none. -/
def After (cursor : Option κ) (key : κ) : Prop :=
  ∀ last, cursor = some last → last < key

instance (cursor : Option κ) (key : κ) : Decidable (After cursor key) :=
  match cursor with
  | none => .isTrue fun _ none_ => nomatch none_
  | some last =>
    if less : last < key then
      .isTrue fun _ same => Option.some.inj same ▸ less
    else
      .isFalse fun after => less (after last rfl)

/-- The rows after a cursor, in order. -/
def scan (key : α → κ) (rows : List α) (cursor : Option κ) : List α :=
  inOrder key (rows.filter fun row => decide (After cursor (key row)))

/-- A page of rows after a cursor, as many as the limit. -/
def page
    (key : α → κ)
    (limit : Nat)
    (rows : List α)
    (cursor : Option κ) : List α :=
  (scan key rows cursor).take limit

/-- The next page's cursor: the last row's key, if there are rows after it. -/
def next
    (key : α → κ)
    (limit : Nat)
    (rows : List α)
    (cursor : Option κ) : Option κ :=
  if limit < (scan key rows cursor).length then
    (page key limit rows cursor).getLast?.map key
  else
    none

section Page

variable {key : α → κ} {rows : List α} {cursor : Option κ} {limit : Nat}

theorem inOrder_perm : (inOrder key rows).Perm rows :=
  mergeSort_perm ..

/-- Rows in order have rising keys. -/
theorem rising_inOrder :
    (inOrder key rows).Pairwise fun first second => key first ≤ key second := by
  have sorted := @List.pairwise_mergeSort α
    (fun first second : α => decide (key first ≤ key second))
    (fun _ _ _ low high =>
      decide_eq_true (le_trans (of_decide_eq_true low) (of_decide_eq_true high)))
    (fun first second => by
      simp only [Bool.or_eq_true, decide_eq_true_eq]
      exact le_total (key first) (key second))
    rows
  exact sorted.imp of_decide_eq_true

theorem inOrder_of_rising
    (rising : rows.Pairwise fun first second => key first ≤ key second) :
    inOrder key rows = rows :=
  mergeSort_of_pairwise (rising.imp decide_eq_true)

/-- The row with the greatest key is listed last. -/
theorem inOrder_concat
    {last : α}
    (newest : ∀ row ∈ rows, key row ≤ key last) :
    ∃ front, inOrder key (rows ++ [last]) = front ++ [last] := by
  induction rows with
  | nil => exact ⟨[], mergeSort_singleton last⟩
  | cons row rest inductionHypothesis =>
    obtain ⟨front, sorted⟩ := inductionHypothesis fun other member =>
      newest other (mem_cons_of_mem _ member)
    obtain ⟨before, after, placed, rested, above⟩ := @List.mergeSort_cons α
      (fun first second : α => decide (key first ≤ key second))
      (fun _ _ _ low high =>
        decide_eq_true (le_trans (of_decide_eq_true low) (of_decide_eq_true high)))
      (fun first second => by
        simp only [Bool.or_eq_true, decide_eq_true_eq]
        exact le_total (key first) (key second))
      row (rest ++ [last])
    rw [inOrder, cons_append, placed]
    rw [inOrder, rested] at sorted
    rcases eq_nil_or_concat after with rfl | ⟨later, final, rfl⟩
    · rw [append_nil] at sorted
      have listed : last ∈ before := by
        rw [sorted]
        exact mem_append_right _ (mem_singleton_self last)
      have low := newest row mem_cons_self
      simpa [low] using above last listed
    · rw [concat_eq_append, ← append_assoc] at sorted
      obtain ⟨rfl, same⟩ := append_inj' sorted rfl
      rw [concat_eq_append, singleton_inj.mp same]
      exact ⟨before ++ row :: later, by simp⟩

theorem pairwise_inOrder (distinct : (rows.map key).Nodup) :
    (inOrder key rows).Pairwise fun first second => key first < key second := by
  have apart : (inOrder key rows).Pairwise fun first second =>
      key first ≠ key second :=
    pairwise_map.mp ((inOrder_perm.map key).nodup_iff.mpr distinct)
  exact rising_inOrder.imp₂ (fun _ _ low differs =>
    lt_of_le_of_ne low differs) apart

theorem inOrder_filter
    (distinct : (rows.map key).Nodup)
    (test : α → Bool) :
    inOrder key (rows.filter test) = (inOrder key rows).filter test := by
  have chosen : ((rows.filter test).map key).Nodup :=
    distinct.sublist (filter_sublist.map key)
  refine List.Perm.eq_of_pairwise
    (fun _ _ _ _ less more => absurd (less.trans more) (lt_irrefl _))
    (pairwise_inOrder chosen) ((pairwise_inOrder distinct).filter test)
    (inOrder_perm.trans (inOrder_perm.symm.filter test))

theorem mem_scan {row : α} :
    row ∈ scan key rows cursor ↔ row ∈ rows ∧ After cursor (key row) := by
  rw [scan, inOrder_perm.mem_iff, mem_filter, decide_eq_true_iff]

theorem pairwise_scan (distinct : (rows.map key).Nodup) :
    (scan key rows cursor).Pairwise fun first second => key first < key second :=
  pairwise_inOrder (distinct.sublist (filter_sublist.map key))

theorem mem_of_page {row : α} (listed : row ∈ page key limit rows cursor) :
    row ∈ rows ∧ After cursor (key row) :=
  mem_scan.mp (mem_of_mem_take listed)

theorem nodup_page (distinct : (rows.map key).Nodup) :
    (page key limit rows cursor).Nodup :=
  ((pairwise_scan distinct).sublist (take_sublist ..)).imp
    fun less same => absurd (same ▸ less) (lt_irrefl _)

theorem page_of_next {last : κ} (more : next key limit rows cursor = some last) :
    limit < (scan key rows cursor).length ∧
      ∃ before row, page key limit rows cursor = before ++ [row] ∧
        key row = last := by
  unfold next at more
  split at more
  · next longer =>
      obtain ⟨row, isLast, itsKey⟩ := Option.map_eq_some_iff.mp more
      obtain ⟨before, shape⟩ := getLast?_eq_some_iff.mp isLast
      exact ⟨longer, before, row, shape, itsKey⟩
  · cases more

theorem after_of_next {last : κ} (more : next key limit rows cursor = some last) :
    After cursor last := by
  obtain ⟨_, before, row, shape, rfl⟩ := page_of_next more
  have listed : row ∈ page key limit rows cursor := by
    rw [shape]
    simp
  exact (mem_of_page listed).2

theorem mem_of_next {last : κ} (more : next key limit rows cursor = some last) :
    ∃ row ∈ rows, key row = last := by
  obtain ⟨_, before, row, shape, itsKey⟩ := page_of_next more
  have listed : row ∈ page key limit rows cursor := by
    rw [shape]
    simp
  exact ⟨row, (mem_of_page listed).1, itsKey⟩

theorem not_after_next
    {row : α}
    {last : κ}
    (distinct : (rows.map key).Nodup)
    (more : next key limit rows cursor = some last)
    (listed : row ∈ page key limit rows cursor) :
    key row ≤ last := by
  obtain ⟨_, before, final, shape, rfl⟩ := page_of_next more
  have sorted : (page key limit rows cursor).Pairwise fun first second =>
      key first < key second :=
    (pairwise_scan distinct).sublist (take_sublist ..)
  rw [shape] at sorted listed
  rcases mem_append.mp listed with earlier | same
  · exact ((pairwise_append.mp sorted).2.2 row earlier final
      (mem_singleton_self final)).le
  · rw [mem_singleton.mp same]

/-- A scan is a page and the scan from its cursor. -/
theorem scan_of_next
    {last : κ}
    (distinct : (rows.map key).Nodup)
    (more : next key limit rows cursor = some last) :
    scan key rows cursor =
      page key limit rows cursor ++ scan key rows (some last) := by
  have above := after_of_next more
  have rest : scan key rows (some last) =
      (scan key rows cursor).filter fun row => decide (last < key row) := by
    rw [scan, scan, inOrder_filter distinct, inOrder_filter distinct,
      filter_filter]
    refine filter_congr fun row _ => ?_
    rw [← Bool.decide_and, decide_eq_decide]
    constructor
    · intro after
      exact ⟨after last rfl, fun first isFirst =>
        (above first isFirst).trans (after last rfl)⟩
    · rintro ⟨less, _⟩ _ same
      exact Option.some.inj same ▸ less
  have sorted : (scan key rows cursor).Pairwise fun first second =>
      key first < key second :=
    pairwise_scan distinct
  obtain ⟨_, before, final, shape, itsKey⟩ := page_of_next more
  have halves := take_append_drop limit (scan key rows cursor)
  have none_ : (page key limit rows cursor).filter
      (fun row => decide (last < key row)) = [] := by
    rw [filter_eq_nil_iff]
    intro row listed less
    exact absurd (of_decide_eq_true less)
      (not_lt.mpr (not_after_next distinct more listed))
  have all_ : ((scan key rows cursor).drop limit).filter
      (fun row => decide (last < key row)) = (scan key rows cursor).drop limit := by
    rw [filter_eq_self]
    intro row left
    rw [← halves] at sorted
    refine decide_eq_true (itsKey ▸ (pairwise_append.mp sorted).2.2 final ?_ row left)
    change final ∈ page key limit rows cursor
    rw [shape]
    simp
  rw [rest]
  conv_rhs => rw [← halves]
  rw [filter_append, all_]
  change _ = page key limit rows cursor ++
    ((page key limit rows cursor).filter _ ++ _)
  rw [none_, nil_append]
  exact halves.symm

/-- The last page is all that is left to scan. -/
theorem scan_of_last
    (positive : 0 < limit)
    (final : next key limit rows cursor = none) :
    scan key rows cursor = page key limit rows cursor := by
  unfold next at final
  split at final
  · next longer =>
      have empty : page key limit rows cursor = [] := by simpa using final
      have short : (page key limit rows cursor).length = limit :=
        length_take_of_le longer.le
      rw [empty, length_nil] at short
      exact absurd short positive.ne
  · next whole =>
      exact (take_of_length_le (not_lt.mp whole)).symm

/-- A row ahead is on the page or after its cursor. -/
theorem listed_or_after
    {row : α}
    (positive : 0 < limit)
    (distinct : (rows.map key).Nodup)
    (there : row ∈ rows)
    (after : After cursor (key row)) :
    row ∈ page key limit rows cursor ∨
      ∃ last, next key limit rows cursor = some last ∧ last < key row := by
  have scanned := mem_scan.mpr ⟨there, after⟩
  cases more : next key limit rows cursor with
  | none =>
    rw [scan_of_last positive more] at scanned
    exact .inl scanned
  | some last =>
    rw [scan_of_next distinct more] at scanned
    refine (mem_append.mp scanned).imp_right fun left => ?_
    exact ⟨last, rfl, (mem_scan.mp left).2 last rfl⟩

end Page

section Listing

variable (key : α → κ) (limit : Nat) (rows : Nat → List α)

/-- The cursor a page is read with, none once the listing has ended. -/
def cursorAt : Nat → Option (Option κ)
  | 0 => some none
  | pages + 1 =>
    (cursorAt pages).bind fun cursor =>
      (next key limit (rows pages) cursor).map some

/-- A page of a listing. -/
def pageAt (pages : Nat) : List α :=
  match cursorAt key limit rows pages with
  | none => []
  | some cursor => page key limit (rows pages) cursor

/-- What the first pages of a listing have. -/
def listing : Nat → List α
  | 0 => []
  | pages + 1 => listing pages ++ pageAt key limit rows pages

variable {key limit rows}

variable {pages : Nat} {row : α}

theorem cursorAt_succ
    {cursor : Option κ}
    (goes : cursorAt key limit rows (pages + 1) = some cursor) :
    ∃ before last, cursorAt key limit rows pages = some before ∧
      next key limit (rows pages) before = some last ∧ cursor = some last := by
  rw [cursorAt] at goes
  obtain ⟨before, isBefore, more⟩ := Option.bind_eq_some_iff.mp goes
  obtain ⟨last, isNext, rfl⟩ := Option.map_eq_some_iff.mp more
  exact ⟨before, last, isBefore, isNext, rfl⟩

/-- Paging ends where the keys have a falling rank. -/
theorem ends
    (rank : κ → Nat)
    (falls : ∀ pages later, ∀ row ∈ rows pages, ∀ other ∈ rows later,
      key row < key other → rank (key other) < rank (key row)) :
    ∃ pages, cursorAt key limit rows pages = none := by
  by_contra endless
  have goes : ∀ pages, ∃ cursor, cursorAt key limit rows pages = some cursor :=
    fun pages => Option.ne_none_iff_exists'.mp fun ended => endless ⟨pages, ended⟩
  -- Each cursor is the key of some row, and the next one ranks lower.
  have descends : ∀ pages, ∃ last at_, ∃ row ∈ rows at_, key row = last ∧
      cursorAt key limit rows (pages + 1) = some (some last) ∧
      rank last + pages ≤ rank ((cursorAt key limit rows 1).join.getD last) := by
    intro pages
    induction pages with
    | zero =>
      obtain ⟨cursor, first⟩ := goes 1
      obtain ⟨before, last, _, isNext, rfl⟩ := cursorAt_succ first
      obtain ⟨row, there, itsKey⟩ := mem_of_next isNext
      exact ⟨last, 0, row, there, itsKey, first, by rw [first]; simp⟩
    | succ pages inductionHypothesis =>
      obtain ⟨last, at_, row, there, rfl, before, low⟩ := inductionHypothesis
      obtain ⟨cursor, goesOn⟩ := goes (pages + 2)
      obtain ⟨same, further, isBefore, isNext, rfl⟩ := cursorAt_succ goesOn
      rw [before] at isBefore
      obtain rfl := Option.some.inj isBefore
      obtain ⟨other, otherThere, rfl⟩ := mem_of_next isNext
      have less := falls at_ (pages + 1) row there other otherThere
        (after_of_next isNext _ rfl)
      obtain ⟨firstCursor, first⟩ := goes 1
      obtain ⟨_, firstLast, _, _, rfl⟩ := cursorAt_succ first
      rw [first] at low ⊢
      refine ⟨key other, pages + 1, other, otherThere, rfl, goesOn, ?_⟩
      simp only [Option.join_some, Option.getD_some] at low ⊢
      omega
  obtain ⟨firstCursor, first⟩ := goes 1
  obtain ⟨_, firstLast, _, _, rfl⟩ := cursorAt_succ first
  obtain ⟨last, _, _, _, _, _, low⟩ := descends (rank firstLast + 1)
  rw [first] at low
  simp only [Option.join_some, Option.getD_some] at low
  omega

/-- A row that stays is listed or still ahead of the cursor. -/
theorem listed_or_ahead
    (positive : 0 < limit)
    (distinct : ∀ pages, ((rows pages).map key).Nodup)
    (stays : ∀ earlier < pages, row ∈ rows earlier) :
    row ∈ listing key limit rows pages ∨
      ∃ cursor, cursorAt key limit rows pages = some cursor ∧
        After cursor (key row) := by
  induction pages with
  | zero => exact .inr ⟨none, rfl, fun _ none_ => nomatch none_⟩
  | succ pages inductionHypothesis =>
    have before := inductionHypothesis fun earlier less =>
      stays earlier (less.trans pages.lt_succ_self)
    rcases before with listed | ⟨cursor, isCursor, after⟩
    · exact .inl (mem_append_left _ listed)
    · have turns := listed_or_after positive (distinct pages)
        (stays pages pages.lt_succ_self) after
      rcases turns with here | ⟨last, isNext, less⟩
      · refine .inl (mem_append_right _ ?_)
        rw [pageAt, isCursor]
        exact here
      · refine .inr ⟨some last, ?_, fun _ same => Option.some.inj same ▸ less⟩
        rw [cursorAt, isCursor, Option.bind_some, isNext, Option.map_some]

/-- A listed row is not ahead of the cursor. -/
theorem not_after_of_listed
    {last : κ}
    (distinct : ∀ pages, ((rows pages).map key).Nodup)
    (goes : cursorAt key limit rows pages = some (some last))
    (listed : row ∈ listing key limit rows pages) :
    key row ≤ last := by
  induction pages generalizing last with
  | zero => cases listed
  | succ pages inductionHypothesis =>
    obtain ⟨before, further, isBefore, isNext, same⟩ := cursorAt_succ goes
    obtain rfl := Option.some.inj same
    rcases mem_append.mp listed with earlier | here
    · cases before with
      | none =>
        cases pages with
        | zero => cases earlier
        | succ pages =>
          obtain ⟨_, _, _, _, absurd_⟩ := cursorAt_succ isBefore
          cases absurd_
      | some first =>
        exact (inductionHypothesis isBefore earlier).trans
          (after_of_next isNext first rfl).le
    · rw [pageAt, isBefore] at here
      exact not_after_next (distinct pages) isNext here

/-- No row is listed twice. -/
theorem nodup_listing
    (distinct : ∀ pages, ((rows pages).map key).Nodup)
    (pages : Nat) :
    (listing key limit rows pages).Nodup := by
  induction pages with
  | zero => exact nodup_nil
  | succ pages inductionHypothesis =>
    rw [listing, nodup_append']
    cases isCursor : cursorAt key limit rows pages with
    | none =>
      rw [pageAt, isCursor]
      exact ⟨inductionHypothesis, nodup_nil, disjoint_nil_right _⟩
    | some cursor =>
      rw [pageAt, isCursor]
      refine ⟨inductionHypothesis, nodup_page (distinct pages), ?_⟩
      intro row earlier here
      have after := (mem_of_page here).2
      cases cursor with
      | none =>
        cases pages with
        | zero => cases earlier
        | succ pages =>
          obtain ⟨_, _, _, _, absurd_⟩ := cursorAt_succ isCursor
          cases absurd_
      | some last =>
        exact absurd (after last rfl)
          (not_lt.mpr (not_after_of_listed distinct isCursor earlier))

theorem mem_listing
    (positive : 0 < limit)
    (distinct : ∀ pages, ((rows pages).map key).Nodup)
    (ended : cursorAt key limit rows pages = none)
    (stays : ∀ earlier < pages, row ∈ rows earlier) :
    row ∈ listing key limit rows pages := by
  refine (listed_or_ahead positive distinct stays).resolve_right ?_
  rintro ⟨cursor, goes, _⟩
  rw [ended] at goes
  cases goes

/-- With rows that do not change the listing is all of them in order. -/
theorem listing_eq
    {all : List α}
    (positive : 0 < limit)
    (distinct : (all.map key).Nodup)
    (same : ∀ pages, rows pages = all)
    (ended : cursorAt key limit rows pages = none) :
    listing key limit rows pages = inOrder key all := by
  have goes : ∀ pages,
      listing key limit rows pages ++
        ((cursorAt key limit rows pages).elim [] fun cursor =>
          scan key all cursor) = inOrder key all := by
    intro pages
    induction pages with
    | zero =>
      change scan key all none = _
      rw [scan, filter_eq_self.mpr]
      intro _ _
      exact decide_eq_true fun _ none_ => nomatch none_
    | succ pages inductionHypothesis =>
      rw [← inductionHypothesis, listing, pageAt, cursorAt, same]
      cases isCursor : cursorAt key limit rows pages with
      | none => simp
      | some cursor =>
        simp only [Option.bind_some, Option.elim_some, append_assoc]
        cases isNext : next key limit all cursor with
        | none =>
          rw [scan_of_last positive isNext]
          simp
        | some last =>
          rw [scan_of_next distinct isNext]
          simp
  have whole := goes pages
  rw [ended] at whole
  simpa using whole

end Listing

end Keyset

end Toolkit
