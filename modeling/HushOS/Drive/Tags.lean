import HushOS.Toolkit.OrderedMap
import HushOS.Toolkit.ScriptText

namespace HushOS

open Toolkit List OrderedMap

namespace Tags

/-!
# Tags merged three ways

A workspace's tags are one registry: the tags, and which items carry each.  A
write over a registry another device saved is merged with it, from the registry
this device started from: a tag stands by what each side did to it, and a
membership by what either side added or removed.
-/

def MAX_TAGS : Nat := 200

/-- A tag, with the fields a newer app added. -/
structure Tag (κ ε : Type) where
  id : κ
  name : Script.Text
  colour : Script.Text
  fields : ε
  deriving DecidableEq

/-- What this app does not understand of a registry. -/
structure Unread (κ φ : Type) where
  fields : OrderedMap Script.Text φ
  items : OrderedMap κ φ

/-- The tags, and for each the items that carry it. -/
structure TagRegistry (κ ε φ : Type) where
  tags : List (Tag κ ε)
  items : OrderedMap κ (List κ)
  kept : Unread κ φ

variable {κ ε φ : Type} [DecidableEq κ]

/-- A registry without tags. -/
def emptyRegistry : TagRegistry κ ε φ where
  tags := []
  items := .empty
  kept := ⟨.empty, .empty⟩

/-- The tag of an id, the last there is. -/
def byId (tags : List (Tag κ ε)) (id : κ) : Option (Tag κ ε) :=
  tags.reverse.find? fun tag => tag.id = id

/-- The ids of some tags. -/
def idsOf (tags : List (Tag κ ε)) : List κ :=
  tags.map Tag.id

/-- One record's entries over another's. -/
def spread {α β : Type} [DecidableEq α] (under upper : OrderedMap α β) : OrderedMap α β :=
  upper.entries.foldl (fun made entry => made.set entry.1 entry.2) under

/-- Whether a side changed a tag's name or colour, or added it. -/
def changed (before : Option (Tag κ ε)) (mine : Tag κ ε) : Bool :=
  match before with
  | none => true
  | some before => before.name ≠ mine.name || before.colour ≠ mine.colour

/-- The tag of an id that stands after a merge. -/
def standing (base ours theirs : TagRegistry κ ε φ) (id : κ) : Option (Tag κ ε) :=
  match byId ours.tags id, byId theirs.tags id with
  | some mine, some other =>
    some (if changed (byId base.tags id) mine then mine else other)
  | some mine, none =>
    if (byId base.tags id).isNone || changed (byId base.tags id) mine then
      some mine
    else
      none
  | none, some other => if (byId base.tags id).isNone then some other else none
  | none, none => none

/-- The tags that stand after a merge, ours first. -/
def standingTags (base ours theirs : TagRegistry κ ε φ) : List (Tag κ ε) :=
  (idsOf ours.tags ++ idsOf theirs.tags).eraseDups.filterMap
    (standing base ours theirs)

/-- The items that carry a tag. -/
def TagRegistry.itemsOf (registry : TagRegistry κ ε φ) (tag : κ) : List κ :=
  (registry.items.get? tag).getD []

/-- The items that carry a tag after a merge. -/
def mergedItems (base ours theirs : TagRegistry κ ε φ) (tag : κ) : List κ :=
  let was := base.itemsOf tag
  let mine := ours.itemsOf tag
  let added := mine.filter fun id => id ∉ was
  let removed := was.filter fun id => id ∉ mine
  (theirs.itemsOf tag ++ added).eraseDups.filter fun id => id ∉ removed

/-- The items of some tags, none for a tag that no item carries. -/
def collect (itemsOf : κ → List κ) (tags : List (Tag κ ε)) : OrderedMap κ (List κ) :=
  tags.foldl
    (fun items tag =>
      if itemsOf tag.id = [] then items else items.set tag.id (itemsOf tag.id))
    .empty

/-- A registry another device saved, merged with ours. -/
def mergeRegistries (base ours theirs : TagRegistry κ ε φ) : TagRegistry κ ε φ :=
  let tags := (standingTags base ours theirs).take MAX_TAGS
  {
    tags := tags
    items := collect (mergedItems base ours theirs) tags
    kept := ⟨spread theirs.kept.fields ours.kept.fields,
      spread theirs.kept.items ours.kept.items⟩
  }

/-- Whether an item carries a tag. -/
def TagRegistry.Carries (registry : TagRegistry κ ε φ) (tag item : κ) : Prop :=
  item ∈ registry.itemsOf tag

instance (registry : TagRegistry κ ε φ) (tag item : κ) :
    Decidable (registry.Carries tag item) :=
  inferInstanceAs (Decidable (item ∈ registry.itemsOf tag))

/-- Whether a registry has a tag. -/
def TagRegistry.Has (registry : TagRegistry κ ε φ) (tag : κ) : Prop :=
  tag ∈ idsOf registry.tags

instance (registry : TagRegistry κ ε φ) (tag : κ) : Decidable (registry.Has tag) :=
  inferInstanceAs (Decidable (tag ∈ idsOf registry.tags))

/-- A registry as a device reads it: each tag once, as many as there may be. -/
structure TagRegistry.Valid (registry : TagRegistry κ ε φ) : Prop where
  distinct : (idsOf registry.tags).Nodup
  within : registry.tags.length ≤ MAX_TAGS
  listed : ∀ tag item, registry.Carries tag item → registry.Has tag

variable {id : κ} {tag : Tag κ ε} {tags : List (Tag κ ε)}
  {base ours theirs : TagRegistry κ ε φ}

theorem byId_some
    (found : byId tags id = some tag) :
    tag ∈ tags ∧ tag.id = id := by
  have listed := mem_of_find?_eq_some found
  have test := find?_some found
  exact ⟨mem_reverse.mp listed, of_decide_eq_true test⟩

theorem byId_eq_none
    {id : κ} :
    byId tags id = none ↔ id ∉ idsOf tags := by
  simp only [byId, find?_eq_none, mem_reverse, decide_eq_true_eq, idsOf,
    mem_map, not_exists, not_and]

theorem exists_byId
    (has : id ∈ idsOf tags) :
    ∃ tag, byId tags id = some tag := by
  rw [← Option.isSome_iff_exists, ← Option.ne_none_iff_isSome, ne_eq, byId_eq_none, not_not]
  exact has

theorem byId_of_mem
    (distinct : (idsOf tags).Nodup)
    (member : tag ∈ tags) :
    byId tags tag.id = some tag := by
  obtain ⟨found, isFound⟩ := exists_byId (mem_map_of_mem member)
  obtain ⟨listed, same⟩ := byId_some isFound
  rw [isFound, inj_on_of_nodup_map distinct listed member same]

theorem byId_of_standing
    (stands : standing base ours theirs id = some tag) :
    byId ours.tags id = some tag ∨ byId theirs.tags id = some tag := by
  rw [standing] at stands
  split at stands
  · next mine other isMine isOther =>
      split at stands
      · cases stands
        exact .inl isMine
      · cases stands
        exact .inr isOther
  · next mine isMine none_ =>
      split at stands
      · cases stands
        exact .inl isMine
      · cases stands
  · next other none_ isOther =>
      split at stands
      · cases stands
        exact .inr isOther
      · cases stands
  · cases stands

theorem id_of_standing
    (stands : standing base ours theirs id = some tag) :
    tag.id = id := by
  rcases byId_of_standing stands with isMine | isOther
  · exact (byId_some isMine).2
  · exact (byId_some isOther).2

theorem nodup_eraseDups (ids : List κ) : ids.eraseDups.Nodup := by
  induction length : ids.length using Nat.strongRecOn generalizing ids with
  | ind count inductionHypothesis =>
    cases ids with
    | nil => exact nodup_nil
    | cons id rest =>
      have shorter : (rest.filter fun other => !other == id).length < count := by
        have within := length_filter_le (fun other => !other == id) rest
        rw [length_cons] at length
        omega
      rw [eraseDups_cons, nodup_cons, mem_eraseDups, mem_filter]
      refine ⟨fun again => ?_, inductionHypothesis _ shorter _ rfl⟩
      simp at again

omit [DecidableEq κ] in
theorem ids_filterMap
    {choose : κ → Option (Tag κ ε)}
    (itself : ∀ id tag, choose id = some tag → tag.id = id)
    (ids : List κ) :
    (idsOf (ids.filterMap choose)).Sublist ids := by
  induction ids with
  | nil => exact List.Sublist.slnil
  | cons id rest inductionHypothesis =>
    cases chosen : choose id with
    | none =>
      rw [filterMap_cons_none chosen]
      exact inductionHypothesis.cons id
    | some tag =>
      rw [filterMap_cons_some chosen, idsOf, map_cons, itself id tag chosen]
      exact inductionHypothesis.cons_cons id

theorem nodup_standingTags (base ours theirs : TagRegistry κ ε φ) :
    (idsOf (standingTags base ours theirs)).Nodup :=
  (nodup_eraseDups _).sublist (ids_filterMap (fun _ _ => id_of_standing) _)

theorem mem_standingTags
    {tag : Tag κ ε} :
    tag ∈ standingTags base ours theirs ↔
      standing base ours theirs tag.id = some tag := by
  rw [standingTags, mem_filterMap]
  constructor
  · rintro ⟨id, _, stands⟩
    rw [id_of_standing stands]
    exact stands
  · intro stands
    refine ⟨tag.id, ?_, stands⟩
    rw [mem_eraseDups, mem_append]
    by_contra absent
    rw [not_or, ← byId_eq_none, ← byId_eq_none] at absent
    rw [standing, absent.1, absent.2] at stands
    cases stands

theorem mem_ids_standingTags
    {id : κ} :
    id ∈ idsOf (standingTags base ours theirs) ↔
      (standing base ours theirs id).isSome = true := by
  rw [Option.isSome_iff_exists, idsOf, mem_map]
  constructor
  · rintro ⟨tag, member, rfl⟩
    exact ⟨tag, mem_standingTags.mp member⟩
  · rintro ⟨tag, stands⟩
    have itself := id_of_standing stands
    rw [← itself] at stands
    exact ⟨tag, mem_standingTags.mpr stands, itself⟩

/-- Whether a side has a tag of an id that it changed, or added. -/
def ChangedBy (base side : TagRegistry κ ε φ) (id : κ) : Prop :=
  ∃ tag, byId side.tags id = some tag ∧ changed (byId base.tags id) tag = true

/-- A tag of ours stands if theirs has it or we made or changed it. -/
theorem stands_of_ours
    (has : ours.Has id) :
    id ∈ idsOf (standingTags base ours theirs) ↔
      theirs.Has id ∨ ¬ base.Has id ∨ ChangedBy base ours id := by
  obtain ⟨mine, isMine⟩ := exists_byId has
  rw [mem_ids_standingTags, standing, isMine]
  cases isOther : byId theirs.tags id with
  | some other =>
    have hasToo : theirs.Has id := by
      by_contra absent
      rw [byId_eq_none.mpr absent] at isOther
      cases isOther
    simp only [Option.isSome_some, true_iff]
    exact .inl hasToo
  | none =>
    have absent : ¬ theirs.Has id := byId_eq_none.mp isOther
    have new : (byId base.tags id).isNone = true ↔ ¬ base.Has id := by
      rw [Option.isNone_iff_eq_none]
      exact byId_eq_none
    have ourChange : ChangedBy base ours id ↔
        changed (byId base.tags id) mine = true := by
      constructor
      · rintro ⟨other, isOther, change⟩
        cases isMine.symm.trans isOther
        exact change
      · exact fun change => ⟨mine, isMine, change⟩
    simp only [absent, false_or, ourChange, ← new, ← Bool.or_eq_true]
    split
    · next stands => simp only [Option.isSome_some, stands]
    · next falls => simp only [Option.isSome_none, Bool.not_eq_true] at falls ⊢; simp [falls]

theorem stands_of_theirs
    (absent : ¬ ours.Has id) :
    id ∈ idsOf (standingTags base ours theirs) ↔ theirs.Has id ∧ ¬ base.Has id := by
  rw [mem_ids_standingTags, standing, byId_eq_none.mpr absent]
  cases isOther : byId theirs.tags id with
  | none =>
    have none_ : ¬ theirs.Has id := byId_eq_none.mp isOther
    simp [none_]
  | some other =>
    have has : theirs.Has id := by
      by_contra none_
      rw [byId_eq_none.mpr none_] at isOther
      cases isOther
    have new : (byId base.tags id).isNone = true ↔ ¬ base.Has id := by
      rw [Option.isNone_iff_eq_none]
      exact byId_eq_none
    simp only [has, true_and, ← new]
    split
    · next isNew => simp [isNew]
    · next old => simp [old]

/-- Collecting the items files each tag's own, if it has any. -/
theorem get?_foldl_collect
    {itemsOf : κ → List κ}
    {made : OrderedMap κ (List κ)}
    {id : κ} :
    (tags.foldl
      (fun items tag =>
        if itemsOf tag.id = [] then items else items.set tag.id (itemsOf tag.id))
      made).get? id =
      if id ∈ idsOf tags ∧ itemsOf id ≠ [] then some (itemsOf id) else made.get? id := by
  induction tags generalizing made with
  | nil => rfl
  | cons tag rest inductionHypothesis =>
    rw [foldl_cons, inductionHypothesis]
    by_cases later : id ∈ idsOf rest ∧ itemsOf id ≠ []
    · have listed : id ∈ idsOf (tag :: rest) := mem_cons_of_mem _ later.1
      rw [if_pos later, if_pos ⟨listed, later.2⟩]
    · rw [if_neg later]
      by_cases same : tag.id = id
      · subst same
        have listed : tag.id ∈ idsOf (tag :: rest) := mem_cons_self
        by_cases none_ : itemsOf tag.id = []
        · rw [if_pos none_, if_neg (fun both => both.2 none_)]
        · rw [if_neg none_, if_pos ⟨listed, none_⟩, get?_set, if_pos rfl]
      · have unlisted : ¬ (id ∈ idsOf (tag :: rest) ∧ itemsOf id ≠ []) := by
          rintro ⟨listed, some_⟩
          rcases mem_cons.mp listed with isHead | listed
          · exact same isHead.symm
          · exact later ⟨listed, some_⟩
        rw [if_neg unlisted]
        split
        · rfl
        · rw [get?_set, if_neg (Ne.symm same)]

theorem mem_mergedItems
    {tag item : κ} :
    item ∈ mergedItems base ours theirs tag ↔
      theirs.Carries tag item ∧ ¬ (base.Carries tag item ∧ ¬ ours.Carries tag item) ∨
        ours.Carries tag item ∧ ¬ base.Carries tag item := by
  simp only [mergedItems, mem_filter, mem_eraseDups, mem_append,
    decide_eq_true_eq, TagRegistry.Carries]
  constructor
  · rintro ⟨isTheirs | isAdded, kept⟩
    · exact .inl ⟨isTheirs, kept⟩
    · exact .inr isAdded
  · rintro (⟨isTheirs, kept⟩ | isAdded)
    · exact ⟨.inl isTheirs, kept⟩
    · exact ⟨.inr isAdded, fun removed => isAdded.2 removed.1⟩

theorem carries_mergeRegistries
    {tag item : κ} :
    (mergeRegistries base ours theirs).Carries tag item ↔
      (mergeRegistries base ours theirs).Has tag ∧
        item ∈ mergedItems base ours theirs tag := by
  have items : (mergeRegistries base ours theirs).items.get? tag =
      if (mergeRegistries base ours theirs).Has tag ∧
          mergedItems base ours theirs tag ≠ [] then
        some (mergedItems base ours theirs tag)
      else none :=
    get?_foldl_collect
  rw [TagRegistry.Carries, TagRegistry.itemsOf, items]
  split
  · next both =>
      rw [Option.getD_some]
      exact ⟨fun member => ⟨both.1, member⟩, fun told => told.2⟩
  · next neither =>
      rw [Option.getD_none]
      constructor
      · exact nofun
      · rintro ⟨has, member⟩
        exact absurd ⟨has, ne_nil_of_mem member⟩ neither

theorem valid_mergeRegistries (base ours theirs : TagRegistry κ ε φ) :
    (mergeRegistries base ours theirs).Valid where
  distinct := (nodup_standingTags base ours theirs).sublist
    ((take_sublist _ _).map Tag.id)
  within := length_take_le ..
  listed _ _ carries := (carries_mergeRegistries.mp carries).1

theorem standing_of_has
    (has : (mergeRegistries base ours theirs).Has id) :
    id ∈ idsOf (standingTags base ours theirs) :=
  ((take_sublist _ _).map Tag.id).subset has

theorem has_of_standing
    (room : (standingTags base ours theirs).length ≤ MAX_TAGS)
    (stands : id ∈ idsOf (standingTags base ours theirs)) :
    (mergeRegistries base ours theirs).Has id := by
  rw [TagRegistry.Has, mergeRegistries, take_of_length_le room]
  exact stands

/-- What is told of a tag. -/
def Tag.told (tag : Tag κ ε) : κ × Script.Text × Script.Text :=
  (tag.id, tag.name, tag.colour)

theorem standing_base
    {base ours : TagRegistry κ ε φ}
    {tag : Tag κ ε}
    (found : byId ours.tags tag.id = some tag) :
    ∃ stands, standing base ours base tag.id = some stands ∧ stands.told = tag.told := by
  rw [standing, found]
  cases before : byId base.tags tag.id with
  | none => exact ⟨tag, by simp, rfl⟩
  | some old =>
    simp only
    split
    · exact ⟨tag, rfl, rfl⟩
    · next same =>
        rw [changed, Bool.or_eq_true, not_or] at same
        simp only [ne_eq, decide_not, Bool.not_eq_true', decide_eq_false_iff_not,
          not_not] at same
        refine ⟨old, rfl, ?_⟩
        rw [Tag.told, Tag.told, (byId_some before).2, same.1, same.2]

theorem standing_base_eq_none
    {base ours : TagRegistry κ ε φ}
    (absent : ¬ ours.Has id) :
    standing base ours base id = none := by
  rw [← Option.not_isSome_iff_eq_none, ← mem_ids_standingTags, stands_of_theirs absent]
  exact fun both => both.2 both.1

theorem told_filterMap_standing
    {base ours : TagRegistry κ ε φ}
    (tags : List (Tag κ ε))
    (found : ∀ tag ∈ tags, byId ours.tags tag.id = some tag) :
    ((idsOf tags).filterMap (standing base ours base)).map Tag.told = tags.map Tag.told := by
  induction tags with
  | nil => rfl
  | cons tag rest inductionHypothesis =>
    obtain ⟨stands, isStanding, same⟩ :=
      @standing_base _ _ _ _ base _ _ (found tag mem_cons_self)
    have tail := inductionHypothesis fun other member =>
      found other (mem_cons_of_mem _ member)
    rw [idsOf, map_cons, filterMap_cons_some isStanding, map_cons,
      map_cons, same]
    exact congrArg (tag.told :: ·) tail

theorem eraseDups_of_nodup
    {ids : List κ}
    (distinct : ids.Nodup) :
    ids.eraseDups = ids := by
  induction ids with
  | nil => rfl
  | cons id rest inductionHypothesis =>
    have others : rest.filter (fun other => !other == id) = rest := by
      refine filter_eq_self.mpr fun other member => ?_
      have differs : other ≠ id := by
        rintro rfl
        exact (nodup_cons.mp distinct).1 member
      simp [differs]
    rw [eraseDups_cons, others, inductionHypothesis (nodup_cons.mp distinct).2]

theorem told_standingTags_base
    {base ours : TagRegistry κ ε φ}
    (distinct : (idsOf ours.tags).Nodup) :
    (standingTags base ours base).map Tag.told = ours.tags.map Tag.told := by
  have rest : ((idsOf base.tags).removeAll (idsOf ours.tags)).eraseDups.filterMap
      (standing base ours base) = [] := by
    refine filterMap_eq_nil_iff.mpr fun id member => ?_
    rw [mem_eraseDups, List.removeAll, mem_filter] at member
    have unlisted : id ∉ idsOf ours.tags := by
      simpa using member.2
    exact standing_base_eq_none unlisted
  rw [standingTags, eraseDups_append, eraseDups_of_nodup distinct,
    filterMap_append, rest, append_nil]
  exact told_filterMap_standing ours.tags fun tag member => byId_of_mem distinct member

theorem told_merge_base
    {base ours : TagRegistry κ ε φ}
    (valid : ours.Valid) :
    (mergeRegistries base ours base).tags.map Tag.told = ours.tags.map Tag.told := by
  have all := @told_standingTags_base _ _ _ _ base _ valid.distinct
  have room : (standingTags base ours base).length ≤ MAX_TAGS := by
    rw [← length_map (f := Tag.told), all, length_map]
    exact valid.within
  rw [mergeRegistries, take_of_length_le room]
  exact all

omit [DecidableEq κ] in
theorem ids_of_told
    {first second : List (Tag κ ε)}
    (same : first.map Tag.told = second.map Tag.told) :
    idsOf first = idsOf second := by
  have ids := congrArg (List.map Prod.fst) same
  rw [map_map, map_map] at ids
  exact ids

theorem carries_merge_base
    {base ours : TagRegistry κ ε φ}
    (valid : ours.Valid)
    (tag item : κ) :
    (mergeRegistries base ours base).Carries tag item ↔ ours.Carries tag item := by
  have has : (mergeRegistries base ours base).Has tag ↔ ours.Has tag := by
    rw [TagRegistry.Has, TagRegistry.Has, ids_of_told (told_merge_base valid)]
  rw [carries_mergeRegistries, has, mem_mergedItems]
  constructor
  · rintro ⟨_, ⟨isBase, kept⟩ | ⟨isOurs, _⟩⟩
    · by_contra absent
      exact kept ⟨isBase, absent⟩
    · exact isOurs
  · intro isOurs
    refine ⟨valid.listed tag item isOurs, ?_⟩
    by_cases isBase : base.Carries tag item
    · exact .inl ⟨isBase, fun both => both.2 isOurs⟩
    · exact .inr ⟨isOurs, isBase⟩

theorem standing_unchanged
    {base theirs : TagRegistry κ ε φ}
    (id : κ) :
    standing base base theirs id = byId theirs.tags id := by
  rw [standing]
  cases before : byId base.tags id with
  | none =>
    cases byId theirs.tags id with
    | none => rfl
    | some other => simp
  | some mine =>
    cases byId theirs.tags id with
    | none => simp [changed]
    | some other => simp [changed]

theorem perm_standingTags
    {base theirs : TagRegistry κ ε φ}
    (distinct : (idsOf theirs.tags).Nodup) :
    (standingTags base base theirs).Perm theirs.tags := by
  refine (perm_ext_iff_of_nodup (nodup_standingTags _ _ _).of_map distinct.of_map).mpr
    fun tag => ?_
  rw [mem_standingTags, standing_unchanged]
  exact ⟨fun found => (byId_some found).1, byId_of_mem distinct⟩

theorem perm_merge_unchanged
    {base theirs : TagRegistry κ ε φ}
    (valid : theirs.Valid) :
    (mergeRegistries base base theirs).tags.Perm theirs.tags := by
  have all := @perm_standingTags _ _ _ _ base _ valid.distinct
  have room : (standingTags base base theirs).length ≤ MAX_TAGS :=
    all.length_eq.trans_le valid.within
  rw [mergeRegistries, take_of_length_le room]
  exact all

theorem carries_merge_unchanged
    {base theirs : TagRegistry κ ε φ}
    (valid : theirs.Valid)
    (tag item : κ) :
    (mergeRegistries base base theirs).Carries tag item ↔ theirs.Carries tag item := by
  have has : (mergeRegistries base base theirs).Has tag ↔ theirs.Has tag :=
    ((perm_merge_unchanged valid).map Tag.id).mem_iff
  rw [carries_mergeRegistries, has, mem_mergedItems]
  constructor
  · rintro ⟨_, ⟨isTheirs, _⟩ | ⟨mine, notMine⟩⟩
    · exact isTheirs
    · exact absurd mine notMine
  · intro isTheirs
    exact ⟨valid.listed tag item isTheirs,
      .inl ⟨isTheirs, fun both => both.2 both.1⟩⟩

/-- Whether a tag survives a merge: both sides have it, or one added it, or one
took it out and the other changed it. -/
def Survives (base ours theirs : TagRegistry κ ε φ) (id : κ) : Prop :=
  (ours.Has id ∧ theirs.Has id) ∨
    (¬ base.Has id ∧ (ours.Has id ∨ theirs.Has id)) ∨
    (base.Has id ∧ ¬ theirs.Has id ∧ ChangedBy base ours id) ∨
    (base.Has id ∧ ¬ ours.Has id ∧ ChangedBy base theirs id)

theorem has_of_changedBy
    {base side : TagRegistry κ ε φ}
    (change : ChangedBy base side id) :
    side.Has id := by
  obtain ⟨tag, found, _⟩ := change
  by_contra absent
  rw [byId_eq_none.mpr absent] at found
  cases found

/-- A tag stands exactly when it survives, the slip's case apart. -/
theorem stands_iff_survives
    (apart : ¬ (base.Has id ∧ ¬ ours.Has id ∧ ChangedBy base theirs id)) :
    id ∈ idsOf (standingTags base ours theirs) ↔ Survives base ours theirs id := by
  by_cases mine : ours.Has id
  · rw [stands_of_ours mine, Survives]
    constructor
    · intro stands
      by_cases other : theirs.Has id
      · exact .inl ⟨mine, other⟩
      by_cases before : base.Has id
      · rcases stands with isTheirs | new | change
        · exact absurd isTheirs other
        · exact absurd before new
        · exact .inr (.inr (.inl ⟨before, other, change⟩))
      · exact .inr (.inl ⟨before, .inl mine⟩)
    · rintro (both | new | ours_ | theirs_)
      · exact .inl both.2
      · exact .inr (.inl new.1)
      · exact .inr (.inr ours_.2.2)
      · exact absurd mine theirs_.2.1
  · rw [stands_of_theirs mine, Survives]
    constructor
    · rintro ⟨other, new⟩
      exact .inr (.inl ⟨new, .inr other⟩)
    · rintro (both | new | ours_ | theirs_)
      · exact absurd both.1 mine
      · exact ⟨new.2.resolve_left mine, new.1⟩
      · exact absurd (has_of_changedBy ours_.2.2) mine
      · exact absurd theirs_ apart

theorem has_of_full
    (distinct : (idsOf ours.tags).Nodup)
    (stand : ∀ id, ours.Has id → id ∈ idsOf (standingTags base ours theirs))
    (full : MAX_TAGS ≤ ours.tags.length)
    (has : (mergeRegistries base ours theirs).Has id) :
    ours.Has id := by
  have all : ((idsOf ours.tags).filterMap (standing base ours theirs)).length =
      ours.tags.length := by
    rw [filterMap_length_eq_length.mpr, idsOf, length_map]
    exact fun id mine => mem_ids_standingTags.mp (stand id mine)
  rw [TagRegistry.Has, mergeRegistries, standingTags, eraseDups_append,
    eraseDups_of_nodup distinct, filterMap_append,
    take_append_of_le_length (full.trans_eq all.symm)] at has
  have listed := ((take_sublist _ _).map Tag.id).subset has
  exact (ids_filterMap (fun _ _ => id_of_standing) _).subset listed

end Tags

end HushOS
