import HushOS.Toolkit.Refusal

namespace Toolkit

open List

/-!
# Insertion-ordered maps

A key keeps the place it was first given; giving it a new value changes the
value alone.  Every key stands once, which the structure carries, so looking a
key up and listing the entries always agree.
-/

/-- Entries in the order their keys were first given, each key once. -/
structure OrderedMap (κ : Type u) (α : Type v) where
  entries : List (κ × α)
  nodup : (entries.map Prod.fst).Nodup
  deriving DecidableEq

namespace OrderedMap

variable {κ : Type u} {α : Type v} {β : Type w}

@[ext] theorem ext
    {first second : OrderedMap κ α}
    (same : first.entries = second.entries) :
    first = second := by
  cases first
  cases second
  cases same
  rfl

/-- The map with no entry. -/
def empty : OrderedMap κ α where
  entries := []
  nodup := by simp

/-- The keys, in order. -/
def keys (map : OrderedMap κ α) : List κ :=
  map.entries.map Prod.fst

/-- The values, in the order of their keys. -/
def values (map : OrderedMap κ α) : List α :=
  map.entries.map Prod.snd

/-- How many keys the map has. -/
def size (map : OrderedMap κ α) : Nat :=
  map.entries.length

theorem keys_nodup (map : OrderedMap κ α) :
    map.keys.Nodup :=
  map.nodup

@[simp] theorem length_keys (map : OrderedMap κ α) :
    map.keys.length = map.size := by
  simp [keys, size]

/-- Change every value, keeping keys and order. -/
def mapValues (change : α → β) (map : OrderedMap κ α) :
    OrderedMap κ β where
  entries := map.entries.map fun entry => (entry.1, change entry.2)
  nodup := by
    simpa [Function.comp_def] using map.nodup

@[simp] theorem keys_mapValues
    (change : α → β)
    (map : OrderedMap κ α) :
    (map.mapValues change).keys = map.keys := by
  simp [keys, mapValues, Function.comp_def]

/-- Change every value by its key, keeping keys and order. -/
def mapEntries (change : κ → α → β) (map : OrderedMap κ α) :
    OrderedMap κ β where
  entries := map.entries.map fun entry => (entry.1, change entry.1 entry.2)
  nodup := by
    simpa [Function.comp_def] using map.nodup

@[simp] theorem keys_mapEntries
    (change : κ → α → β)
    (map : OrderedMap κ α) :
    (map.mapEntries change).keys = map.keys := by
  simp [keys, mapEntries, Function.comp_def]

/-- The entries whose keys pass a test, in order. -/
def keep (test : κ → Bool) (map : OrderedMap κ α) : OrderedMap κ α where
  entries := map.entries.filter fun entry => test entry.1
  nodup := (map.nodup.sublist ((filter_sublist).map Prod.fst))

theorem keys_keep
    (test : κ → Bool)
    (map : OrderedMap κ α) :
    (map.keep test).keys = map.keys.filter test := by
  simp [keys, keep, filter_map, Function.comp_def]

section Lookup

variable [DecidableEq κ]

/-- The value at a key in a list of entries, the first one counting. -/
def lookupIn (key : κ) : List (κ × α) → Option α
  | [] => none
  | entry :: rest =>
    if entry.1 = key then some entry.2 else lookupIn key rest

/-- The value a map has at a key, if any. -/
def get? (map : OrderedMap κ α) (key : κ) : Option α :=
  lookupIn key map.entries

/-- Whether a map has a key. -/
def has (map : OrderedMap κ α) (key : κ) : Bool :=
  (map.get? key).isSome

/-- Put a value at a key of a list of entries, at its place or at the end. -/
def placeIn (key : κ) (value : α) : List (κ × α) → List (κ × α)
  | [] => [(key, value)]
  | entry :: rest =>
    if entry.1 = key then
      (key, value) :: rest
    else
      entry :: placeIn key value rest

theorem map_fst_placeIn
    (key : κ)
    (value : α)
    (entries : List (κ × α)) :
    (placeIn key value entries).map Prod.fst =
      if key ∈ entries.map Prod.fst then
        entries.map Prod.fst
      else
        entries.map Prod.fst ++ [key] := by
  induction entries with
  | nil =>
    simp [placeIn]
  | cons entry rest inductionHypothesis =>
    by_cases same : entry.1 = key
    · subst same
      simp [placeIn]
    · have differs : key ≠ entry.1 := fun equal => same equal.symm
      simp only [placeIn, same, ↓reduceIte, map_cons,
        inductionHypothesis, mem_cons, differs, false_or]
      split <;> simp

/-- Put a value at a key: at its place, or at the end when it is new. -/
def set (map : OrderedMap κ α) (key : κ) (value : α) :
    OrderedMap κ α where
  entries := placeIn key value map.entries
  nodup := by
    rw [map_fst_placeIn]
    split
    · exact map.nodup
    · next fresh =>
        exact nodup_append.mpr
          ⟨map.nodup, by simp, by
            intro first firstMember second secondMember equal
            simp only [mem_singleton] at secondMember
            subst equal secondMember
            exact fresh firstMember⟩

/-- A placed value is found at its key, the others as before. -/
theorem lookupIn_placeIn
    (key query : κ)
    (value : α)
    (entries : List (κ × α)) :
    lookupIn query (placeIn key value entries) =
      if query = key then some value else lookupIn query entries := by
  induction entries with
  | nil =>
    by_cases same : query = key
    · simp [placeIn, lookupIn, same]
    · have differs : key ≠ query := fun equal => same equal.symm
      simp [placeIn, lookupIn, same, differs]
  | cons entry rest inductionHypothesis =>
    by_cases atEntry : entry.1 = key
    · by_cases same : query = key
      · simp [placeIn, lookupIn, atEntry, same]
      · have differs : key ≠ query := fun equal => same equal.symm
        simp [placeIn, lookupIn, atEntry, same, differs]
    · by_cases same : query = key
      · subst same
        simp [placeIn, lookupIn, atEntry, inductionHypothesis]
      · simp [placeIn, lookupIn, atEntry, inductionHypothesis, same]

theorem get?_set
    (map : OrderedMap κ α)
    (key query : κ)
    (value : α) :
    (map.set key value).get? query =
      if query = key then some value else map.get? query :=
  lookupIn_placeIn key query value map.entries

theorem keys_set
    (map : OrderedMap κ α)
    (key : κ)
    (value : α) :
    (map.set key value).keys =
      if key ∈ map.keys then map.keys else map.keys ++ [key] :=
  map_fst_placeIn key value map.entries

/-- A new key is set at the end. -/
theorem entries_set_of_new
    {map : OrderedMap κ α}
    {key : κ}
    {value : α}
    (new : key ∉ map.keys) :
    (map.set key value).entries = map.entries ++ [(key, value)] := by
  have placed : ∀ entries : List (κ × α), key ∉ entries.map Prod.fst →
      placeIn key value entries = entries ++ [(key, value)] := by
    intro entries absent
    induction entries with
    | nil =>
      rfl
    | cons entry rest inductionHypothesis =>
      simp only [map_cons, mem_cons, not_or] at absent
      have differs : ¬ entry.1 = key := fun same => absent.1 same.symm
      simp [placeIn, differs, inductionHypothesis absent.2]
  exact placed map.entries new

variable {map : OrderedMap κ α}

theorem mem_keys_set
    {key query : κ}
    {value : α} :
    query ∈ (map.set key value).keys ↔
      query = key ∨ query ∈ map.keys := by
  rw [keys_set]
  split
  · next member =>
      constructor
      · exact .inr
      · rintro (rfl | earlier)
        · exact member
        · exact earlier
  · simp [or_comm]

@[simp] theorem get?_empty (key : κ) :
    (empty : OrderedMap κ α).get? key = none :=
  rfl

omit [DecidableEq κ] in
@[simp] theorem keys_empty :
    (empty : OrderedMap κ α).keys = [] :=
  rfl

theorem get?_mapValues
    (change : α → β)
    (map : OrderedMap κ α)
    (key : κ) :
    (map.mapValues change).get? key = (map.get? key).map change := by
  show lookupIn key (map.entries.map _) =
    (lookupIn key map.entries).map change
  induction map.entries with
  | nil =>
    rfl
  | cons entry rest inductionHypothesis =>
    by_cases same : entry.1 = key
    · simp [lookupIn, same]
    · simpa [lookupIn, same] using inductionHypothesis

theorem get?_mapEntries
    (change : κ → α → β)
    (map : OrderedMap κ α)
    (key : κ) :
    (map.mapEntries change).get? key = (map.get? key).map (change key) := by
  show lookupIn key (map.entries.map _) =
    (lookupIn key map.entries).map (change key)
  induction map.entries with
  | nil =>
    rfl
  | cons entry rest inductionHypothesis =>
    by_cases same : entry.1 = key
    · subst same
      simp [lookupIn]
    · simpa [lookupIn, same] using inductionHypothesis

/-- With distinct keys a lookup finds exactly the entries. -/
theorem lookupIn_eq_some
    {entries : List (κ × α)}
    (nodup : (entries.map Prod.fst).Nodup)
    {key : κ}
    {value : α} :
    lookupIn key entries = some value ↔ (key, value) ∈ entries := by
  induction entries with
  | nil =>
    simp [lookupIn]
  | cons entry rest inductionHypothesis =>
    rw [map_cons, nodup_cons] at nodup
    obtain ⟨fresh, restNodup⟩ := nodup
    by_cases same : entry.1 = key
    · subst same
      have notLater : (entry.1, value) ∉ rest := fun member =>
        fresh (mem_map.mpr ⟨_, member, rfl⟩)
      simp only [lookupIn, ↓reduceIte, Option.some.injEq,
        mem_cons, notLater, or_false]
      constructor
      · rintro rfl
        rfl
      · intro equal
        exact congrArg Prod.snd equal.symm
    · have differs : (key, value) ≠ entry := fun equal =>
        same (congrArg Prod.fst equal.symm)
      simp [lookupIn, same, inductionHypothesis restNodup, differs]

theorem get?_eq_some
    {key : κ}
    {value : α} :
    map.get? key = some value ↔ (key, value) ∈ map.entries :=
  lookupIn_eq_some map.nodup

theorem mem_keys
    {key : κ} :
    key ∈ map.keys ↔ ∃ value, map.get? key = some value := by
  simp [keys, get?_eq_some]

theorem get?_eq_none
    {key : κ} :
    map.get? key = none ↔ key ∉ map.keys := by
  rw [mem_keys, Option.eq_none_iff_forall_ne_some]
  simp

/-- The map without a key. -/
def erase (map : OrderedMap κ α) (key : κ) : OrderedMap κ α :=
  map.keep (· ≠ key)

theorem get?_keep
    (test : κ → Bool)
    (map : OrderedMap κ α)
    (key : κ) :
    (map.keep test).get? key = if test key then map.get? key else none := by
  apply Option.ext
  intro value
  rw [get?_eq_some, keep, mem_filter]
  split
  · next passes =>
      simp [get?_eq_some, passes]
  · next fails =>
      simp [fails]

theorem get?_erase
    (map : OrderedMap κ α)
    (key other : κ) :
    (map.erase key).get? other =
      if other = key then none else map.get? other := by
  rw [erase, get?_keep]
  by_cases same : other = key
  · simp [same]
  · simp [same]

theorem keys_erase
    (map : OrderedMap κ α)
    (key : κ) :
    (map.erase key).keys = map.keys.filter (· ≠ key) :=
  keys_keep _ _

@[simp] theorem has_iff
    {key : κ} :
    map.has key = true ↔ key ∈ map.keys := by
  rw [has, Option.isSome_iff_exists, mem_keys]

theorem mem_values
    {value : α} :
    value ∈ map.values ↔ ∃ key, map.get? key = some value := by
  simp [values, get?_eq_some]

/-- Maps with the same keys in order and the same values are equal. -/
theorem ext_of_keys
    {first second : OrderedMap κ α}
    (sameKeys : first.keys = second.keys)
    (sameValues : ∀ key, first.get? key = second.get? key) :
    first = second := by
  apply ext
  refine ext_getElem ?_ ?_
  · simpa [keys] using congrArg List.length sameKeys
  · intro index inFirst inSecond
    have keyEq :
        (first.entries[index]).1 = (second.entries[index]).1 := by
      have keyAt := congrArg (fun list => list[index]?) sameKeys
      simpa [keys, inFirst, inSecond] using keyAt
    have firstFound :
        first.get? (first.entries[index]).1 =
          some (first.entries[index]).2 :=
      get?_eq_some.mpr (getElem_mem inFirst)
    have secondFound :
        second.get? (second.entries[index]).1 =
          some (second.entries[index]).2 :=
      get?_eq_some.mpr (getElem_mem inSecond)
    rw [sameValues, keyEq, secondFound] at firstFound
    exact Prod.ext keyEq (Option.some.inj firstFound).symm

theorem size_set
    (map : OrderedMap κ α)
    (key : κ)
    (value : α) :
    (map.set key value).size =
      if key ∈ map.keys then map.size else map.size + 1 := by
  rw [← length_keys, keys_set]
  split <;> simp

end Lookup

section Lists

variable [DecidableEq κ]

/-- Append an item to the list at a key, starting it when there is none. -/
def push (map : OrderedMap κ (List α)) (key : κ) (item : α) :
    OrderedMap κ (List α) :=
  map.set key ((map.get? key).getD [] ++ [item])

/-- The list at a key, empty when there is none. -/
def listAt (map : OrderedMap κ (List α)) (key : κ) : List α :=
  (map.get? key).getD []

variable {key : κ} {map : OrderedMap κ (List α)}

theorem listAt_of_get?
    {list : List α}
    (found : map.get? key = some list) :
    map.listAt key = list := by
  simp [listAt, found]

theorem get?_eq_listAt
    (listed : key ∈ map.keys) :
    map.get? key = some (map.listAt key) := by
  obtain ⟨list, found⟩ := mem_keys.mp listed
  rw [found, listAt_of_get? found]

theorem listAt_push
    (map : OrderedMap κ (List α))
    (key query : κ)
    (item : α) :
    (map.push key item).listAt query =
      if query = key then map.listAt key ++ [item]
      else map.listAt query := by
  unfold listAt push
  rw [get?_set]
  split <;> simp

theorem keys_push
    (map : OrderedMap κ (List α))
    (key : κ)
    (item : α) :
    (map.push key item).keys =
      if key ∈ map.keys then map.keys else map.keys ++ [key] :=
  keys_set map key _

theorem mem_keys_push
    {key query : κ}
    {item : α} :
    query ∈ (map.push key item).keys ↔
      query = key ∨ query ∈ map.keys :=
  mem_keys_set

/-- Pushed items are listed under their keys in order. -/
theorem listAt_foldl_push
    {ι : Type u}
    (keyOf : ι → κ)
    (valueOf : ι → α)
    (items : List ι)
    (map : OrderedMap κ (List α))
    (key : κ) :
    (items.foldl (fun map item => map.push (keyOf item) (valueOf item))
        map).listAt key =
      map.listAt key ++
        (items.filter fun item => keyOf item = key).map valueOf := by
  induction items generalizing map with
  | nil =>
    simp
  | cons item rest inductionHypothesis =>
    rw [foldl_cons, inductionHypothesis, listAt_push]
    by_cases own : key = keyOf item
    · subst own
      simp
    · have other : ¬ keyOf item = key := fun same => own same.symm
      simp [own, other]

theorem mem_keys_foldl_push
    {ι : Type u}
    (keyOf : ι → κ)
    (valueOf : ι → α)
    (items : List ι)
    {key : κ} :
    key ∈ (items.foldl (fun map item => map.push (keyOf item) (valueOf item))
        map).keys ↔
      key ∈ map.keys ∨ ∃ item ∈ items, keyOf item = key := by
  induction items generalizing map with
  | nil =>
    simp
  | cons item rest inductionHypothesis =>
    rw [foldl_cons, inductionHypothesis, mem_keys_push,
      exists_mem_cons_iff]
    constructor
    · rintro ((rfl | earlier) | later)
      · exact .inr (.inl rfl)
      · exact .inl earlier
      · exact .inr (.inr later)
    · rintro (earlier | rfl | later)
      · exact .inl (.inr earlier)
      · exact .inl (.inl rfl)
      · exact .inr later

/-- Pushing an item adds it to the lists. -/
theorem mem_flatten_values_push
    {item query : α} :
    query ∈ (map.push key item).values.flatten ↔
      query = item ∨ query ∈ map.values.flatten := by
  simp only [mem_flatten, mem_values, push, get?_set]
  constructor
  · rintro ⟨list, ⟨at_, found⟩, member⟩
    split at found
    · simp only [Option.some.injEq] at found
      subst found
      rcases mem_append.mp member with inOld | isNew
      · cases held : map.get? key with
        | none =>
          simp [held] at inOld
        | some old =>
          exact .inr ⟨old, ⟨key, held⟩, by simpa [held] using inOld⟩
      · exact .inl (mem_singleton.mp isNew)
    · exact .inr ⟨list, ⟨at_, found⟩, member⟩
  · rintro (rfl | ⟨list, ⟨at_, found⟩, member⟩)
    · exact ⟨(map.get? key).getD [] ++ [query], ⟨key, by simp⟩, by simp⟩
    · by_cases same : at_ = key
      · subst same
        exact ⟨list ++ [item], ⟨at_, by simp [found]⟩, by simp [member]⟩
      · exact ⟨list, ⟨at_, by simp [same, found]⟩, member⟩

omit [DecidableEq κ] in
theorem split_entries
    {map : OrderedMap κ α}
    {before after : List (κ × α)}
    {value : α}
    (split : map.entries = before ++ (key, value) :: after) :
    (∀ entry ∈ before, entry.1 ≠ key) ∧ ∀ entry ∈ after, entry.1 ≠ key := by
  have distinct := map.nodup
  rw [split, map_append, map_cons, nodup_append] at distinct
  obtain ⟨_, inAfter, apart⟩ := distinct
  refine ⟨?_, ?_⟩
  · intro entry member
    exact apart entry.1 (mem_map_of_mem member) key (mem_cons_self ..)
  · intro entry member same
    have again := mem_map_of_mem (f := Prod.fst) member
    rw [same] at again
    exact (nodup_cons.mp inAfter).1 again

/-- Erasing a key takes its list out of the lists. -/
theorem perm_flatten_erase
    {list : List α}
    (found : map.get? key = some list) :
    (list ++ (map.erase key).values.flatten).Perm map.values.flatten := by
  obtain ⟨before, after, split⟩ := append_of_mem (get?_eq_some.mp found)
  obtain ⟨earlier, later⟩ := split_entries split
  have keepsBefore : before.filter (fun entry => entry.1 ≠ key) = before :=
    filter_eq_self.mpr fun entry member => decide_eq_true (earlier entry member)
  have keepsAfter : after.filter (fun entry => entry.1 ≠ key) = after :=
    filter_eq_self.mpr fun entry member => decide_eq_true (later entry member)
  have without : (map.erase key).entries = before ++ after := by
    change map.entries.filter (fun entry => decide (entry.1 ≠ key)) = _
    rw [split, filter_append, keepsBefore, filter_cons_of_neg (by simp),
      keepsAfter]
  rw [values, values, without, split]
  simp only [map_append, map_cons, flatten_append,
    flatten_cons]
  rw [← append_assoc, ← append_assoc]
  exact perm_append_comm.append_right _

theorem perm_flatten_push
    (map : OrderedMap κ (List α))
    (key : κ)
    (item : α) :
    (map.push key item).values.flatten.Perm (item :: map.values.flatten) := by
  have placed : ∀ entries : List (κ × List α),
      ((placeIn key ((lookupIn key entries).getD [] ++ [item]) entries).map
        Prod.snd).flatten.Perm (item :: (entries.map Prod.snd).flatten) := by
    intro entries
    induction entries with
    | nil => exact List.Perm.refl _
    | cons entry rest inductionHypothesis =>
      rw [placeIn, lookupIn]
      split
      · simp only [Option.getD_some, map_cons, flatten_cons,
          append_assoc]
        exact perm_middle
      · simp only [map_cons, flatten_cons]
        exact (inductionHypothesis.append_left _).trans perm_middle
  exact placed map.entries

end Lists

end OrderedMap

end Toolkit
