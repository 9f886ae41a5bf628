import HushOS.Toolkit.OrderedMap
import Mathlib.Algebra.BigOperators.Group.List.Basic
import Mathlib.Algebra.Order.BigOperators.Group.List
import Mathlib.Algebra.Order.Group.Int

namespace Toolkit

open List

/-!
# Tables

A table of rows under a primary key is an `OrderedMap`.  Rows are inserted,
updated where a condition holds and deleted where one holds; `total` sums a
weight over the rows, and one lemma each says what a statement does to it.
-/

theorem length_filter_le_one
    {α : Type}
    {rows : List α}
    {meets : α → Bool}
    (apart : rows.Pairwise fun row later =>
      ¬ (meets row = true ∧ meets later = true)) :
    (rows.filter meets).length ≤ 1 := by
  have differ := apart.filter meets
  have all : ∀ row ∈ rows.filter meets, meets row = true :=
    fun row member => (mem_filter.mp member).2
  generalize rows.filter meets = kept at differ all
  match kept with
  | [] =>
    exact Nat.zero_le 1
  | [_] =>
    exact Nat.le_refl 1
  | first :: second :: rest =>
    have first_ := all first (.head _)
    have second_ := all second (.tail _ (.head _))
    exact absurd ⟨first_, second_⟩
      ((pairwise_cons.mp differ).1 second (.head _))

namespace OrderedMap

universe u v

variable {κ : Type u} {α : Type v}

/-- Change the rows that meet a condition. -/
def update
    (table : OrderedMap κ α)
    (meets : κ → α → Bool)
    (change : α → α) :
    OrderedMap κ α :=
  table.mapEntries fun key row =>
    if meets key row then change row else row

/-- Keep the rows that meet a condition. -/
def retain (table : OrderedMap κ α) (meets : κ → α → Bool) :
    OrderedMap κ α where
  entries := table.entries.filter fun entry => meets entry.1 entry.2
  nodup := table.nodup.sublist (filter_sublist.map Prod.fst)

/-- Whether some row meets a condition. -/
def exists_ (table : OrderedMap κ α) (meets : κ → α → Bool) : Bool :=
  table.entries.any fun entry => meets entry.1 entry.2

/-- The rows that meet a condition, with their keys. -/
def select (table : OrderedMap κ α) (meets : κ → α → Bool) :
    List (κ × α) :=
  table.entries.filter fun entry => meets entry.1 entry.2

/-- The sum of a weight over the rows. -/
def total (table : OrderedMap κ α) (weight : κ → α → Int) : Int :=
  (table.entries.map fun entry => weight entry.1 entry.2).sum

@[simp] theorem total_empty (weight : κ → α → Int) :
    (empty : OrderedMap κ α).total weight = 0 :=
  rfl

theorem total_update
    (table : OrderedMap κ α)
    (meets : κ → α → Bool)
    (change : α → α)
    (weight : κ → α → Int) :
    (table.update meets change).total weight =
      table.total fun key row =>
        weight key (if meets key row then change row else row) := by
  simp only [total, update, mapEntries, map_map]
  rfl

/-- The rows retained total their own weights. -/
theorem total_retain
    (table : OrderedMap κ α)
    (meets : κ → α → Bool)
    (weight : κ → α → Int) :
    (table.retain meets).total weight =
      table.total fun key row =>
        if meets key row then weight key row else 0 := by
  have sums : ∀ entries : List (κ × α),
      ((entries.filter fun entry => meets entry.1 entry.2).map
          fun entry => weight entry.1 entry.2).sum =
        (entries.map fun entry =>
          if meets entry.1 entry.2 then
            weight entry.1 entry.2
          else 0).sum := by
    intro entries
    induction entries with
    | nil =>
      rfl
    | cons entry rest inductionHypothesis =>
      by_cases met : meets entry.1 entry.2
      · simp [met, inductionHypothesis]
      · simp [met, inductionHypothesis]
  exact sums table.entries

/-- Totals of two weights add up. -/
theorem total_add
    (table : OrderedMap κ α)
    (first second : κ → α → Int) :
    (table.total fun key row => first key row + second key row) =
      table.total first + table.total second := by
  have sums : ∀ entries : List (κ × α),
      (entries.map fun entry =>
          first entry.1 entry.2 + second entry.1 entry.2).sum =
        (entries.map fun entry => first entry.1 entry.2).sum +
          (entries.map fun entry => second entry.1 entry.2).sum := by
    intro entries
    induction entries with
    | nil =>
      rfl
    | cons entry rest inductionHypothesis =>
      simp only [map_cons, sum_cons, inductionHypothesis]
      omega
  exact sums table.entries

section Lookup

variable [DecidableEq κ]

/-- Whether there is a row under a key and it meets a condition. -/
def meetsAt
    (table : OrderedMap κ α)
    (meets : κ → α → Bool)
    (key : κ) : Bool :=
  match table.get? key with
  | some row => meets key row
  | none => false

variable {key : κ}

variable {row : α}

theorem meetsAt_of_found
    {table : OrderedMap κ α}
    (found : table.get? key = some row)
    (meets : κ → α → Bool) :
    table.meetsAt meets key = meets key row := by
  rw [meetsAt, found]

theorem mem_entries
    {table : OrderedMap κ α} :
    (key, row) ∈ table.entries ↔ table.get? key = some row :=
  get?_eq_some.symm

theorem get?_set_of_found
    {table : OrderedMap κ α}
    {id key : κ}
    {earlier : α}
    (fresh : table.get? id = none)
    (found : table.get? key = some earlier) :
    (table.set id row).get? key = some earlier := by
  rw [get?_set]
  by_cases same : key = id
  · rw [same, fresh] at found
    cases found
  · rw [if_neg same]
    exact found

theorem get?_set_self
    (table : OrderedMap κ α)
    (id : κ)
    (row : α) :
    (table.set id row).get? id = some row := by
  rw [get?_set, if_pos rfl]

theorem get?_set_cases
    {table : OrderedMap κ α}
    {id key : κ}
    {after : α}
    (found : (table.set id row).get? key = some after) :
    (key = id ∧ after = row) ∨
      (key ≠ id ∧ table.get? key = some after) := by
  rw [get?_set] at found
  split at found
  · next same => exact .inl ⟨same, (Option.some.inj found).symm⟩
  · next other => exact .inr ⟨other, found⟩

theorem get?_update
    (table : OrderedMap κ α)
    (meets : κ → α → Bool)
    (change : α → α)
    (key : κ) :
    (table.update meets change).get? key =
      (table.get? key).map fun row =>
        if meets key row then change row else row :=
  get?_mapEntries _ table key

variable {meets : κ → α → Bool}

theorem update_eq_self
    {table : OrderedMap κ α}
    {change : α → α}
    (same : ∀ key row, table.get? key = some row →
      meets key row = true → change row = row) :
    table.update meets change = table := by
  refine ext_of_keys (keys_mapEntries _ _) fun key => ?_
  rw [get?_update]
  cases found : table.get? key with
  | none => rfl
  | some row =>
    rw [Option.map_some]
    split
    · next met => rw [same key row found met]
    · rfl

theorem update_comm
    (table : OrderedMap κ α)
    {others : κ → α → Bool}
    {change another : α → α}
    (meetsStill : ∀ key row, meets key (another row) = meets key row)
    (othersStill : ∀ key row, others key (change row) = others key row)
    (commute : ∀ row, change (another row) = another (change row)) :
    (table.update meets change).update others another =
      (table.update others another).update meets change := by
  refine ext_of_keys (by simp [update]) fun key => ?_
  simp only [get?_update]
  cases table.get? key with
  | none => rfl
  | some row =>
    simp only [Option.map_some, Option.some.injEq]
    by_cases met : meets key row = true <;>
      by_cases other : others key row = true <;>
        simp [met, other, meetsStill, othersStill, commute]

theorem update_set
    (table : OrderedMap κ α)
    (id : κ)
    (row : α)
    (change : α → α)
    (only : ∀ key other, meets key other = decide (key = id)) :
    (table.set id row).update meets change = table.set id (change row) := by
  refine ext_of_keys ?_ fun key => ?_
  · rw [update, keys_mapEntries, keys_set, keys_set]
  · simp only [get?_update, get?_set, only]
    by_cases same : key = id
    · simp [same]
    · simp [same]

/-- A filtered table finds the rows that meet the test. -/
theorem lookupIn_filter
    (key : κ)
    (meets : κ → α → Bool)
    {entries : List (κ × α)}
    (once : (entries.map Prod.fst).Nodup) :
    lookupIn key (entries.filter fun entry => meets entry.1 entry.2) =
      (lookupIn key entries).filter (meets key) := by
  induction entries with
  | nil =>
    rfl
  | cons entry rest inductionHypothesis =>
    obtain ⟨fresh, restOnce⟩ := nodup_cons.mp once
    have rest_ := inductionHypothesis restOnce
    by_cases same : entry.1 = key
    · have absent : lookupIn key rest = none := by
        cases found : lookupIn key rest with
        | none => rfl
        | some row =>
          have member := (lookupIn_eq_some restOnce).mp found
          exact absurd
            (same ▸ mem_map_of_mem (f := Prod.fst) member) fresh
      rw [absent] at rest_
      by_cases met : meets entry.1 entry.2
      · subst same
        simp [lookupIn, met, Option.filter]
      · subst same
        simp only [filter_cons, met, Bool.false_eq_true,
          ↓reduceIte, lookupIn, Option.filter]
        rw [rest_]
        rfl
    · by_cases met : meets entry.1 entry.2
      · simp [lookupIn, met, same, rest_]
      · simp [lookupIn, met, same, rest_]

@[simp] theorem get?_retain
    (table : OrderedMap κ α)
    (meets : κ → α → Bool)
    (key : κ) :
    (table.retain meets).get? key =
      (table.get? key).filter (meets key) :=
  lookupIn_filter key meets table.nodup

theorem get?_retain_eq_some
    {table : OrderedMap κ α} :
    (table.retain meets).get? key = some row ↔
      table.get? key = some row ∧ meets key row = true := by
  rw [get?_retain, Option.filter_eq_some_iff]

theorem retain_eq_self
    {table : OrderedMap κ α}
    (all : ∀ key row, table.get? key = some row → meets key row = true) :
    table.retain meets = table := by
  apply ext
  refine filter_eq_self.mpr fun entry member => ?_
  exact all entry.1 entry.2 (mem_entries.mp member)

theorem exists_eq_true
    {table : OrderedMap κ α} :
    table.exists_ meets = true ↔
      ∃ key row, table.get? key = some row ∧ meets key row = true := by
  simp only [exists_, any_eq_true, Prod.exists, mem_entries]

theorem exists_eq_false
    {table : OrderedMap κ α} :
    table.exists_ meets = false ↔
      ∀ key row, table.get? key = some row → meets key row = false := by
  rw [← Bool.not_eq_true, exists_eq_true]
  simp

theorem mem_select
    {table : OrderedMap κ α} :
    (key, row) ∈ table.select meets ↔
      table.get? key = some row ∧ meets key row = true := by
  simp only [select, mem_filter, mem_entries]

variable {first second : κ → α → Int}

theorem total_congr
    {table : OrderedMap κ α}
    (agree : ∀ key row, table.get? key = some row →
      first key row = second key row) :
    table.total first = table.total second := by
  have sums := map_congr_left (l := table.entries)
    (f := fun entry => first entry.1 entry.2)
    (g := fun entry => second entry.1 entry.2)
    fun entry member => agree entry.1 entry.2 (mem_entries.mp member)
  exact congrArg List.sum sums

theorem total_eq_zero
    {table : OrderedMap κ α}
    {weight : κ → α → Int}
    (none_ : ∀ key row, table.get? key = some row → weight key row = 0) :
    table.total weight = 0 := by
  have zeros : table.total weight = table.total fun _ _ => 0 :=
    total_congr none_
  rw [zeros]
  simp [total]

theorem total_mono
    {table : OrderedMap κ α}
    (below : ∀ key row, table.get? key = some row →
      first key row ≤ second key row) :
    table.total first ≤ table.total second :=
  sum_le_sum fun entry member =>
    below entry.1 entry.2 (mem_entries.mp member)

theorem total_nonneg
    {table : OrderedMap κ α}
    {weight : κ → α → Int}
    (nonneg : ∀ key row, table.get? key = some row → 0 ≤ weight key row) :
    0 ≤ table.total weight := by
  have below : (table.total fun _ _ => 0) ≤ table.total weight :=
    total_mono nonneg
  rwa [total_eq_zero fun _ _ _ => rfl] at below

theorem sum_placeIn
    (key : κ)
    (row : α)
    (weight : κ → α → Int)
    (entries : List (κ × α)) :
    ((placeIn key row entries).map fun entry =>
        weight entry.1 entry.2).sum =
      (entries.map fun entry => weight entry.1 entry.2).sum -
        ((lookupIn key entries).map (weight key)).getD 0 +
        weight key row := by
  induction entries with
  | nil =>
    simp [placeIn, lookupIn]
  | cons entry rest inductionHypothesis =>
    by_cases same : entry.1 = key
    · subst same
      simp only [placeIn, ↓reduceIte, map_cons, sum_cons,
        lookupIn, Option.map_some, Option.getD_some]
      omega
    · simp only [placeIn, same, ↓reduceIte, map_cons,
        sum_cons, inductionHypothesis, lookupIn]
      omega

theorem total_set
    (table : OrderedMap κ α)
    (key : κ)
    (row : α)
    (weight : κ → α → Int) :
    (table.set key row).total weight =
      table.total weight - ((table.get? key).map (weight key)).getD 0 +
        weight key row :=
  sum_placeIn key row weight table.entries

theorem total_insert
    {table : OrderedMap κ α}
    (fresh : table.get? key = none)
    (row : α)
    (weight : κ → α → Int) :
    (table.set key row).total weight =
      table.total weight + weight key row := by
  rw [total_set, fresh]
  simp

/-- A weight on one row totals to that row's. -/
theorem total_single
    {table : OrderedMap κ α}
    (found : table.get? key = some row)
    (weight : κ → α → Int) :
    (table.total fun other row =>
        if other = key then weight other row else 0) =
      weight key row := by
  have member := mem_entries.mpr found
  have sums : ∀ entries : List (κ × α),
      (entries.map Prod.fst).Nodup → (key, row) ∈ entries →
      (entries.map fun entry =>
          if entry.1 = key then weight entry.1 entry.2 else 0).sum =
        weight key row := by
    intro entries once member
    induction entries with
    | nil =>
      exact absurd member not_mem_nil
    | cons entry rest inductionHypothesis =>
      obtain ⟨fresh, restOnce⟩ := nodup_cons.mp once
      have rest_ : entry.1 = key →
          (rest.map fun entry =>
            if entry.1 = key then
              weight entry.1 entry.2
            else 0).sum = 0 := by
        intro same
        have zeros : (rest.map fun entry =>
            if entry.1 = key then weight entry.1 entry.2 else 0) =
              rest.map fun _ => (0 : Int) := by
          refine map_congr_left fun other otherMember => ?_
          have differs : ¬ other.1 = key := fun equal =>
            fresh (same ▸ equal ▸
              mem_map_of_mem (f := Prod.fst) otherMember)
          exact if_neg differs
        rw [zeros]
        simp
      rcases mem_cons.mp member with equal | inRest
      · subst equal
        simp [rest_ rfl]
      · have differs : ¬ entry.1 = key := fun same =>
          fresh (same ▸ mem_map_of_mem (f := Prod.fst) inRest)
        simp [differs, inductionHypothesis restOnce inRest]
  exact sums table.entries table.nodup member

/-- A change of one row moves a total by that row's difference. -/
theorem total_change
    {table : OrderedMap κ α}
    (found : table.get? key = some row)
    (agree : ∀ other row, table.get? other = some row →
      other ≠ key → first other row = second other row) :
    table.total first =
      table.total second - second key row + first key row := by
  have split : ∀ weight : κ → α → Int,
      table.total weight =
        (table.total fun other row =>
          if other = key then 0 else weight other row) +
          weight key row := by
    intro weight
    rw [← total_single found weight, ← total_add]
    refine total_congr fun other row _ => ?_
    by_cases same : other = key <;> simp [same]
  rw [split first, split second]
  have rest : (table.total fun other row =>
        if other = key then 0 else first other row) =
      table.total fun other row =>
        if other = key then 0 else second other row := by
    refine total_congr fun other row otherFound => ?_
    by_cases same : other = key
    · simp [same]
    · simp [same, agree other row otherFound same]
  omega

/-- Erasing a row takes its weight off the total. -/
theorem total_erase
    (table : OrderedMap κ α)
    (key : κ)
    (weight : κ → α → Int) :
    (table.erase key).total weight =
      table.total weight - ((table.get? key).map (weight key)).getD 0 := by
  have kept : (table.erase key).total weight =
      table.total fun other row =>
        if other ≠ key then weight other row else 0 := by
    refine (total_retain table (fun other _ => other ≠ key) weight).trans ?_
    simp only [decide_eq_true_eq]
  rw [kept]
  cases found : table.get? key with
  | none =>
    rw [Option.map_none, Option.getD_none, Int.sub_zero]
    refine total_congr fun other row otherFound => if_pos ?_
    rintro rfl
    rw [found] at otherFound
    cases otherFound
  | some row =>
    rw [total_change found (fun other row _ differs => if_pos differs),
      if_neg (not_not_intro rfl), Int.add_zero, Option.map_some,
      Option.getD_some]

/-! ### What is selected of each row -/

section Select

variable
  {table : OrderedMap κ α}
  {β : Type v}
  {select : κ → α → Option β}
  {name : β → κ}

/-- A selected item is found under the key that names it. -/
theorem find?_select
    (named : ∀ key row item, select key row = some item → name item = key)
    (key : κ) :
    ((table.entries.filterMap fun entry =>
        select entry.1 entry.2).find? fun item => name item = key) =
      (table.get? key).bind (select key) := by
  cases selected : (table.get? key).bind (select key) with
  | none =>
    refine find?_eq_none.mpr fun item member isIt => ?_
    obtain ⟨⟨other, row⟩, there, of_⟩ := mem_filterMap.mp member
    have same : other = key :=
      (named other row item of_).symm.trans (of_decide_eq_true isIt)
    subst same
    rw [mem_entries.mp there, Option.bind_some, of_] at selected
    cases selected
  | some item =>
    obtain ⟨row, found, of_⟩ := Option.bind_eq_some_iff.mp selected
    have member : item ∈ table.entries.filterMap fun entry =>
        select entry.1 entry.2 :=
      mem_filterMap.mpr ⟨(key, row), mem_entries.mpr found, of_⟩
    cases search : (table.entries.filterMap fun entry =>
        select entry.1 entry.2).find? fun item => name item = key with
    | none =>
      exact absurd (decide_eq_true (named key row item of_))
        (find?_eq_none.mp search item member)
    | some first =>
      obtain ⟨⟨other, earlier⟩, there, from_⟩ :=
        mem_filterMap.mp (mem_of_find?_eq_some search)
      have isKey := find?_some search
      have same : other = key :=
        (named other earlier first from_).symm.trans
          (of_decide_eq_true isKey)
      subst same
      rw [mem_entries.mp there] at found
      cases found
      exact from_.symm.trans of_

omit [DecidableEq κ] in
theorem nodup_select
    (named : ∀ key row item, select key row = some item → name item = key) :
    ((table.entries.filterMap fun entry =>
      select entry.1 entry.2).map name).Nodup := by
  refine table.nodup.sublist ?_
  induction table.entries with
  | nil =>
    exact List.Sublist.slnil
  | cons entry rest inductionHypothesis =>
    rw [filterMap_cons]
    cases selected : select entry.1 entry.2 with
    | none =>
      exact inductionHypothesis.cons _
    | some item =>
      rw [map_cons, map_cons, named _ _ _ selected]
      exact inductionHypothesis.cons_cons _

end Select

end Lookup

end OrderedMap

end Toolkit
