import HushOS.Toolkit.OrderedMap
import HushOS.Toolkit.Visits
import Mathlib.Logic.Relation

namespace HushOS

open Toolkit List OrderedMap

namespace Catalogue

/-!
# Rows with their parents before them

A key opens under its parent's, so rows are opened parents first.  The rows are
the server's: an id may come twice, a parent may be missing, and parents may
lead in a circle.
-/

/-- A row of the mirror, as far as its place goes. -/
structure NodeView (Id Rest : Type) where
  id : Id
  parentId : Option Id
  /-- What else it carries. -/
  rest : Rest
  deriving DecidableEq

variable {Id Rest : Type} [DecidableEq Id]

/-- The rows by id, one that comes again in the place of its last copy. -/
def byIdOf (rows : List (NodeView Id Rest)) : OrderedMap Id (NodeView Id Rest) :=
  rows.foldl (fun byId row => (byId.erase row.id).set row.id row) .empty

/-- The parent of a row among the rows, if it is one of them. -/
def parentIn
    (byId : OrderedMap Id (NodeView Id Rest))
    (row : NodeView Id Rest) :
    Option { parent // parent ∈ byId.values } :=
  match row.parentId with
  | none => none
  | some parentId =>
    match found : byId.get? parentId with
    | none => none
    | some parent => some ⟨parent, mem_values.mpr ⟨parentId, found⟩⟩

/-- How many rows are not placed yet. -/
def unplaced
    (byId : OrderedMap Id (NodeView Id Rest))
    (placed : List Id) :
    Nat :=
  Visits.unvisited (byId.values.map NodeView.id) placed

/-- The chain from a row up to the first placed or outside, and what is placed. -/
def climb
    (byId : OrderedMap Id (NodeView Id Rest))
    (placed : List Id) :
    Option { row // row ∈ byId.values } → List (NodeView Id Rest) × List Id
  | none => ([], placed)
  | some ⟨row, member⟩ =>
    if new : row.id ∉ placed then
      have _fewer : unplaced byId (placed ++ [row.id]) < unplaced byId placed :=
        Visits.unvisited_lt (mem_map_of_mem member) new
      Prod.map (row :: ·) id
        (climb byId (placed ++ [row.id]) (parentIn byId row))
    else
      ([], placed)
  termination_by unplaced byId placed

/-- What placing a row and the chain above it leaves: the ids placed, and the rows. -/
def placeChain
    (byId : OrderedMap Id (NodeView Id Rest))
    (state : List Id × List (NodeView Id Rest))
    (row : { row // row ∈ byId.values }) :
    List Id × List (NodeView Id Rest) :=
  let climbed := climb byId state.1 (some row)
  (climbed.2, state.2 ++ climbed.1.reverse)

/-- A batch with each row after its parent, wherever the parent is in it too. -/
def parentsBefore (rows : List (NodeView Id Rest)) : List (NodeView Id Rest) :=
  let byId := byIdOf rows
  (byId.values.attach.foldl (placeChain byId) ([], [])).2

/-- The rows under each parent. -/
def byParentOf (rows : List (NodeView Id Rest)) :
    OrderedMap (Option Id) (List (NodeView Id Rest)) :=
  rows.foldl (fun byParent row => byParent.push row.parentId row) .empty

/-- Rows reached from the top, and those that are not. -/
structure Ordered (Id Rest : Type) where
  ordered : List (NodeView Id Rest)
  orphans : List (NodeView Id Rest)

/-- The rows in the order a queue takes them, each bringing those under it. -/
def drain
    (byParent : OrderedMap (Option Id) (List (NodeView Id Rest)))
    (ordered : List (NodeView Id Rest)) :
    List (NodeView Id Rest) → Ordered Id Rest
  | [] => { ordered, orphans := byParent.values.flatten }
  | row :: queue =>
    match found : byParent.get? (some row.id) with
    | none => drain byParent (ordered ++ [row]) queue
    | some children =>
      have _fewer := (perm_flatten_erase found).length_eq
      drain (byParent.erase (some row.id)) (ordered ++ [row])
        (queue ++ children)
  termination_by queue => queue.length + byParent.values.flatten.length
  decreasing_by
    · simp only [length_cons]
      omega
    · simp only [length_cons, length_append] at *
      omega

/-- The rows parents first, and apart those no chain of parents leads to. -/
def parentsFirst (rows : List (NodeView Id Rest)) : Ordered Id Rest :=
  let byParent := byParentOf rows
  drain (byParent.erase none) [] (byParent.listAt none)

/-- The last copy of an id among the rows. -/
def lastCopy (rows : List (NodeView Id Rest)) (id : Id) :
    Option (NodeView Id Rest) :=
  rows.reverse.find? fun row => row.id = id

theorem byIdOf_concat (rows : List (NodeView Id Rest)) (row : NodeView Id Rest) :
    byIdOf (rows ++ [row]) = ((byIdOf rows).erase row.id).set row.id row := by
  rw [byIdOf, foldl_append]
  rfl

theorem get?_byIdOf (rows : List (NodeView Id Rest)) (id : Id) :
    (byIdOf rows).get? id = lastCopy rows id := by
  induction rows using List.reverseRecOn with
  | nil => rfl
  | append_singleton rows row inductionHypothesis =>
    rw [byIdOf_concat, get?_set, get?_erase,
      inductionHypothesis, lastCopy, lastCopy, reverse_append,
      reverse_singleton, singleton_append, find?_cons]
    by_cases same : id = row.id
    · simp [same]
    · simp [same, Ne.symm same]

variable {rows : List (NodeView Id Rest)}

theorem id_of_get?
    {id : Id}
    {row : NodeView Id Rest}
    (found : (byIdOf rows).get? id = some row) :
    row.id = id := by
  rw [get?_byIdOf, lastCopy] at found
  simpa using find?_some found

theorem mem_values_byIdOf
    {row : NodeView Id Rest} :
    row ∈ (byIdOf rows).values ↔ lastCopy rows row.id = some row := by
  rw [mem_values]
  constructor
  · rintro ⟨id, found⟩
    rw [← get?_byIdOf, id_of_get? found]
    exact found
  · intro last
    exact ⟨row.id, (get?_byIdOf rows row.id).trans last⟩

theorem map_id_values (rows : List (NodeView Id Rest)) :
    (byIdOf rows).values.map NodeView.id = (byIdOf rows).keys := by
  rw [OrderedMap.values, OrderedMap.keys, map_map]
  exact map_congr_left fun entry member =>
    id_of_get? (get?_eq_some.mpr member)

theorem eq_of_id
    {first second : NodeView Id Rest}
    (inFirst : first ∈ (byIdOf rows).values)
    (inSecond : second ∈ (byIdOf rows).values)
    (same : first.id = second.id) :
    first = second := by
  rw [mem_values_byIdOf] at inFirst inSecond
  rw [same] at inFirst
  exact Option.some.inj (inFirst.symm.trans inSecond)

/-- Rows of distinct ids are filed in their own order. -/
theorem values_byIdOf_of_nodup
    (distinct : (rows.map NodeView.id).Nodup) :
    (byIdOf rows).values = rows := by
  induction rows using List.reverseRecOn with
  | nil => rfl
  | append_singleton rows row inductionHypothesis =>
    rw [map_append, nodup_append] at distinct
    obtain ⟨earlier, _, apart⟩ := distinct
    have inductionHypothesis := inductionHypothesis earlier
    have new : row.id ∉ (byIdOf rows).keys := by
      rw [← map_id_values, inductionHypothesis]
      exact fun member => apart row.id member row.id (by simp) rfl
    have kept : ((byIdOf rows).erase row.id).entries = (byIdOf rows).entries := by
      refine filter_eq_self.mpr fun entry member => decide_eq_true ?_
      intro same
      exact new (same ▸ mem_map_of_mem member)
    have erased : row.id ∉ ((byIdOf rows).erase row.id).keys := by
      rw [OrderedMap.keys, kept]
      exact new
    rw [OrderedMap.values] at inductionHypothesis ⊢
    rw [byIdOf_concat, entries_set_of_new erased, kept,
      map_append, inductionHypothesis]
    rfl

/-- A row's parent among the rows: the last copy of its parent's id. -/
def Under
    (rows : List (NodeView Id Rest))
    (row parent : NodeView Id Rest) :
    Prop :=
  row.parentId.bind (lastCopy rows) = some parent

/-- Whether the parents above a row, in the rows, come back to one of them. -/
def Cyclic (rows : List (NodeView Id Rest)) (row : NodeView Id Rest) : Prop :=
  ∃ ancestor,
    Relation.ReflTransGen (Under rows) row ancestor ∧
      Relation.TransGen (Under rows) ancestor ancestor

theorem parentIn_eq_some
    {row : NodeView Id Rest}
    {parent : { parent // parent ∈ (byIdOf rows).values }} :
    parentIn (byIdOf rows) row = some parent ↔ Under rows row parent.val := by
  rw [parentIn, Under]
  cases isParent : row.parentId with
  | none => simp
  | some parentId =>
    simp only [Option.bind_some, ← get?_byIdOf]
    split
    · next missing => simp [missing]
    · next found held =>
        have isParent : (byIdOf rows).get? parentId = some parent.val ↔
            found = parent.val := by
          rw [held, Option.some.injEq]
        rw [isParent, Option.some.injEq, Subtype.ext_iff]

theorem Under.mem
    {row parent : NodeView Id Rest}
    (under : Under rows row parent) :
    parent ∈ (byIdOf rows).values := by
  obtain ⟨parentId, _, found⟩ := Option.bind_eq_some_iff.mp under
  exact mem_values.mpr ⟨parentId, (get?_byIdOf rows parentId).trans found⟩

section Climbing

variable {rows : List (NodeView Id Rest)}

theorem climb_placed
    (placed : List Id)
    (current : Option { row // row ∈ (byIdOf rows).values }) :
    (climb (byIdOf rows) placed current).2 =
      placed ++ (climb (byIdOf rows) placed current).1.map NodeView.id := by
  fun_induction climb (byIdOf rows) placed current with
  | case1 => simp
  | case2 placed row member new fewer inductionHypothesis =>
    rw [Prod.map_snd, Prod.map_fst, id, inductionHypothesis, append_assoc]
    rfl
  | case3 placed row member old => simp

/-- A climb adds rows not yet placed, each once. -/
theorem climb_new
    (placed : List Id)
    (current : Option { row // row ∈ (byIdOf rows).values }) :
    (∀ row ∈ (climb (byIdOf rows) placed current).1,
      row ∈ (byIdOf rows).values ∧ row.id ∉ placed) ∧
      ((climb (byIdOf rows) placed current).1.map NodeView.id).Nodup := by
  fun_induction climb (byIdOf rows) placed current with
  | case1 => simp
  | case2 placed row member new fewer inductionHypothesis =>
    obtain ⟨inRows, distinct⟩ := inductionHypothesis
    refine ⟨?_, ?_⟩
    · intro other inChain
      rcases mem_cons.mp inChain with rfl | inChain
      · exact ⟨member, new⟩
      · have found := inRows other inChain
        exact ⟨found.1, fun old => found.2 (mem_append_left _ old)⟩
    · rw [Prod.map_fst, map_cons, nodup_cons]
      refine ⟨?_, distinct⟩
      intro again
      obtain ⟨other, inChain, same⟩ := mem_map.mp again
      exact (inRows other inChain).2 (by simp [same])
  | case3 placed row member old => simp

theorem mem_climb
    (placed : List Id)
    (row : { row // row ∈ (byIdOf rows).values })
    (new : row.val.id ∉ placed) :
    row.val ∈ (climb (byIdOf rows) placed (some row)).1 := by
  obtain ⟨row, member⟩ := row
  rw [climb, dif_pos new]
  exact mem_cons_self

theorem climb_above
    (placed : List Id)
    (current : Option { row // row ∈ (byIdOf rows).values }) :
    ∀ row ∈ (climb (byIdOf rows) placed current).1,
      ∃ first, current = some first ∧
        Relation.ReflTransGen (Under rows) first.val row := by
  fun_induction climb (byIdOf rows) placed current with
  | case1 => simp
  | case2 placed row member new fewer inductionHypothesis =>
    intro other inChain
    rcases mem_cons.mp inChain with rfl | inChain
    · exact ⟨_, rfl, .refl⟩
    · obtain ⟨parent, isParent, above⟩ := inductionHypothesis other inChain
      exact ⟨_, rfl, above.head (parentIn_eq_some.mp isParent)⟩
  | case3 placed row member old => simp

/--
In a chain a row's parent comes next, was placed before, or stands below it in
the chain itself, which then is a cycle.
-/
theorem climb_parent
    (placed : List Id)
    (current : Option { row // row ∈ (byIdOf rows).values })
    {before after : List (NodeView Id Rest)}
    {row parent : NodeView Id Rest}
    (split : (climb (byIdOf rows) placed current).1 = before ++ row :: after)
    (under : Under rows row parent) :
    parent ∈ after ∨ parent.id ∈ placed ∨
      ∃ other ∈ before ++ [row], other.id = parent.id := by
  fun_induction climb (byIdOf rows) placed current generalizing before with
  | case1 => simp at split
  | case2 placed first member new fewer inductionHypothesis =>
    cases before with
    | nil =>
      obtain ⟨rfl, rfl⟩ := List.cons.inj split
      have next : parentIn (byIdOf rows) first = some ⟨parent, under.mem⟩ :=
        parentIn_eq_some.mpr under
      by_cases old : parent.id ∈ placed ++ [first.id]
      · rcases mem_append.mp old with earlier | own
        · exact .inr (.inl earlier)
        · exact .inr (.inr ⟨first, by simp, (mem_singleton.mp own).symm⟩)
      · refine .inl ?_
        have inChain := mem_climb (placed ++ [first.id])
          ⟨parent, under.mem⟩ old
        rw [← next] at inChain
        exact inChain
    | cons head before =>
      obtain ⟨rfl, later⟩ := List.cons.inj split
      rcases inductionHypothesis later with next | old | ⟨other, inChain, same⟩
      · exact .inl next
      · rcases mem_append.mp old with earlier | own
        · exact .inr (.inl earlier)
        · exact .inr (.inr ⟨first, by simp, (mem_singleton.mp own).symm⟩)
      · exact .inr (.inr ⟨other, mem_cons_of_mem _ inChain, same⟩)
  | case3 placed first member old => simp at split

/-- What a climb puts before a row lies under it on the way up. -/
theorem climb_under
    (placed : List Id)
    (current : Option { row // row ∈ (byIdOf rows).values })
    {before after : List (NodeView Id Rest)}
    {row other : NodeView Id Rest}
    (split : (climb (byIdOf rows) placed current).1 = before ++ row :: after)
    (inChain : other ∈ before ++ [row]) :
    Relation.ReflTransGen (Under rows) other row := by
  fun_induction climb (byIdOf rows) placed current generalizing before with
  | case1 => simp at split
  | case2 placed first member new fewer inductionHypothesis =>
    cases before with
    | nil =>
      rw [nil_append, mem_singleton] at inChain
      rw [inChain]
    | cons head before =>
      obtain ⟨rfl, later⟩ := List.cons.inj split
      rcases mem_cons.mp inChain with rfl | inChain
      · have member : row ∈ (climb (byIdOf rows) (placed ++ [other.id])
            (parentIn (byIdOf rows) other)).1 := by
          rw [later]
          simp
        obtain ⟨parent, isParent, above⟩ := climb_above _ _ row member
        exact above.head (parentIn_eq_some.mp isParent)
      · exact inductionHypothesis later inChain
  | case3 placed first member old => simp at split

end Climbing

/-- Where a batch stands after some rows: what is placed, in order. -/
structure Climbed
    (rows : List (NodeView Id Rest))
    (state : List Id × List (NodeView Id Rest)) :
    Prop where
  placed : ∀ id, id ∈ state.1 ↔ id ∈ state.2.map NodeView.id
  known : ∀ row ∈ state.2, row ∈ (byIdOf rows).values
  distinct : (state.2.map NodeView.id).Nodup
  parents : ∀ {before row after parent},
    state.2 = before ++ row :: after →
    Under rows row parent →
    ¬ Cyclic rows row →
    parent ∈ before

theorem climbed_nil (rows : List (NodeView Id Rest)) : Climbed rows ([], []) where
  placed _ := by simp
  known _ member := by cases member
  distinct := nodup_nil
  parents split := by simp at split

variable {rows : List (NodeView Id Rest)}
  {state : List Id × List (NodeView Id Rest)}

theorem Climbed.mem_of_id
    (climbed : Climbed rows state)
    {row parent : NodeView Id Rest}
    (under : Under rows row parent)
    (old : parent.id ∈ state.1) :
    parent ∈ state.2 := by
  obtain ⟨other, member, same⟩ := mem_map.mp ((climbed.placed _).mp old)
  rw [← eq_of_id (climbed.known other member) under.mem same]
  exact member

/-- Placing one more chain keeps the rows placed from climbs. -/
theorem Climbed.placeChain
    (climbed : Climbed rows state)
    (row : { row // row ∈ (byIdOf rows).values }) :
    Climbed rows (placeChain (byIdOf rows) state row) := by
  have isPlaced := climb_placed state.1 (some row)
  obtain ⟨fresh, chainDistinct⟩ := climb_new state.1 (some row)
  -- A parent of the chain stands above, or the chain comes back to it.
  have inChain : ∀ {later row' after parent},
      (climb (byIdOf rows) state.1 (some row)).1.reverse =
        later ++ row' :: after →
      Under rows row' parent →
      ¬ Cyclic rows row' →
      parent ∈ state.2 ++ later := by
    intro later row' after parent split under straight
    have forward : (climb (byIdOf rows) state.1 (some row)).1 =
        after.reverse ++ row' :: later.reverse := by
      rw [← reverse_reverse (climb (byIdOf rows) state.1 (some row)).1, split]
      simp
    rcases climb_parent state.1 (some row) forward under with
      next | old | ⟨other, below, same⟩
    · exact mem_append_right _ (mem_reverse.mp next)
    · exact mem_append_left _ (climbed.mem_of_id under old)
    · have known : other ∈ (byIdOf rows).values := by
        refine (fresh other ?_).1
        rw [forward]
        rcases mem_append.mp below with before | own
        · exact mem_append_left _ before
        · rw [mem_singleton.mp own]
          simp
      have isParent := eq_of_id known under.mem same
      subst isParent
      exact absurd
        ⟨row', .refl, .head' under (climb_under state.1 (some row) forward below)⟩
        straight
  exact {
    placed := fun id => by
      simp only [Catalogue.placeChain, isPlaced, mem_append, map_append,
        map_reverse, mem_reverse, climbed.placed]
    known := by
      intro other member
      rcases mem_append.mp member with earlier | above
      · exact climbed.known other earlier
      · exact (fresh other (mem_reverse.mp above)).1
    distinct := by
      simp only [Catalogue.placeChain, map_append, map_reverse]
      refine nodup_append.mpr
        ⟨climbed.distinct, nodup_reverse.mpr chainDistinct, ?_⟩
      rintro id earlier _ above rfl
      obtain ⟨other, member, rfl⟩ := mem_map.mp (mem_reverse.mp above)
      exact (fresh other member).2 ((climbed.placed _).mpr earlier)
    parents := by
      intro before row' after parent split under straight
      rcases append_eq_append_iff.mp split with
        ⟨later, rfl, chain⟩ | ⟨between, earlier, chain⟩
      · exact inChain chain under straight
      · cases between with
        | nil =>
          rw [append_nil] at earlier
          have found : parent ∈ state.2 ++ [] := inChain chain.symm under straight
          rw [append_nil, earlier] at found
          exact found
        | cons first between =>
          obtain ⟨rfl, _⟩ := List.cons.inj chain
          exact climbed.parents earlier under straight
  }

theorem mem_placeChain
    (row : { row // row ∈ (byIdOf rows).values })
    {id : Id}
    (placed : id ∈ state.1 ∨ id = row.val.id) :
    id ∈ (placeChain (byIdOf rows) state row).1 := by
  rw [placeChain, climb_placed]
  by_cases old : id ∈ state.1
  · exact mem_append_left _ old
  · have own := placed.resolve_left old
    subst own
    exact mem_append_right _
      (mem_map_of_mem (mem_climb state.1 row old))

theorem climbed_foldl
    (given : List { row // row ∈ (byIdOf rows).values })
    (climbed : Climbed rows state) :
    Climbed rows (given.foldl (placeChain (byIdOf rows)) state) ∧
      (∀ id ∈ state.1, id ∈ (given.foldl (placeChain (byIdOf rows)) state).1) ∧
      ∀ row ∈ given,
        row.val.id ∈ (given.foldl (placeChain (byIdOf rows)) state).1 := by
  induction given generalizing state with
  | nil => exact ⟨climbed, fun _ old => old, fun _ member => by cases member⟩
  | cons row later inductionHypothesis =>
    obtain ⟨kept, stays, each⟩ := inductionHypothesis (climbed.placeChain row)
    refine ⟨kept, fun id old => stays id (mem_placeChain row (.inl old)), ?_⟩
    intro other member
    rcases mem_cons.mp member with rfl | member
    · exact stays _ (mem_placeChain other (.inr rfl))
    · exact each other member

theorem climbed_parentsBefore (rows : List (NodeView Id Rest)) :
    ∃ placed, Climbed rows (placed, parentsBefore rows) ∧
      ∀ row ∈ (byIdOf rows).values, row.id ∈ placed := by
  obtain ⟨climbed, _, each⟩ :=
    climbed_foldl (byIdOf rows).values.attach (climbed_nil rows)
  exact ⟨_, climbed, fun row member => each ⟨row, member⟩ (mem_attach _ _)⟩

theorem mem_parentsBefore {row : NodeView Id Rest} :
    row ∈ parentsBefore rows ↔ lastCopy rows row.id = some row := by
  obtain ⟨placed, climbed, each⟩ := climbed_parentsBefore rows
  rw [← mem_values_byIdOf]
  refine ⟨climbed.known row, fun member => ?_⟩
  obtain ⟨other, found, same⟩ :=
    mem_map.mp ((climbed.placed row.id).mp (each row member))
  rw [← eq_of_id (climbed.known other found) member same]
  exact found

theorem placeChain_alone
    {row : { row // row ∈ (byIdOf rows).values }}
    (new : row.val.id ∉ state.1)
    (above : ∀ parent, Under rows row.val parent → parent.id ∈ state.1) :
    placeChain (byIdOf rows) state row =
      (state.1 ++ [row.val.id], state.2 ++ [row.val]) := by
  obtain ⟨row, member⟩ := row
  have ended : climb (byIdOf rows) (state.1 ++ [row.id]) (parentIn (byIdOf rows) row) =
      ([], state.1 ++ [row.id]) := by
    cases isParent : parentIn (byIdOf rows) row with
    | none => rw [climb]
    | some parent =>
      have old := above parent.val (parentIn_eq_some.mp isParent)
      rw [climb, dif_neg (not_not.mpr (mem_append_left _ old))]
  rw [placeChain, climb, dif_pos new]
  simp only [ended]
  rfl

/-- Rows already in order are placed as they stand. -/
theorem foldl_placeChain
    (given : List { row // row ∈ (byIdOf rows).values })
    (before : List (NodeView Id Rest))
    (distinct : ((before ++ given.map Subtype.val).map NodeView.id).Nodup)
    (parents : ∀ {earlier row later parent},
      before ++ given.map Subtype.val = earlier ++ row :: later →
      Under rows row parent →
      parent ∈ earlier) :
    given.foldl (placeChain (byIdOf rows)) (before.map NodeView.id, before) =
      ((before ++ given.map Subtype.val).map NodeView.id,
        before ++ given.map Subtype.val) := by
  induction given generalizing before with
  | nil => simp
  | cons row later inductionHypothesis =>
    have new : row.val.id ∉ before.map NodeView.id := by
      rw [map_append, nodup_append] at distinct
      intro old
      exact distinct.2.2 _ old row.val.id (by simp) rfl
    have above : ∀ parent, Under rows row.val parent →
        parent.id ∈ before.map NodeView.id := by
      intro parent under
      exact mem_map_of_mem (parents rfl under)
    have spread : before ++ (row :: later).map Subtype.val =
        (before ++ [row.val]) ++ later.map Subtype.val := by
      simp
    rw [foldl_cons, placeChain_alone new above, spread]
    rw [spread] at distinct parents
    have following := inductionHypothesis _ distinct parents
    rw [map_append] at following
    exact following

/-- A list with its parents first is left as it is. -/
theorem parentsBefore_of_ordered
    (distinct : (rows.map NodeView.id).Nodup)
    (parents : ∀ {before row after parent},
      rows = before ++ row :: after →
      parent ∈ rows →
      row.parentId = some parent.id →
      parent ∈ before) :
    parentsBefore rows = rows := by
  have same := values_byIdOf_of_nodup distinct
  have given : (byIdOf rows).values.attach.map Subtype.val = rows := by
    rw [attach_map_subtype_val, same]
  have placed := foldl_placeChain (byIdOf rows).values.attach []
    (by rw [nil_append, given]; exact distinct)
    (fun {earlier row later parent} split under => by
      rw [nil_append, given] at split
      obtain ⟨parentId, isParent, found⟩ := Option.bind_eq_some_iff.mp under
      rw [← get?_byIdOf] at found
      rw [← id_of_get? found] at isParent
      exact parents split (same ▸ under.mem) isParent)
  rw [nil_append, given] at placed
  rw [parentsBefore]
  exact congrArg Prod.snd placed

/-- Whether a chain of parents in the rows leads up to one with no parent. -/
inductive Rooted (rows : List (NodeView Id Rest)) : NodeView Id Rest → Prop where
  | top {row : NodeView Id Rest} :
      row.parentId = none → Rooted rows row
  | under {row parent : NodeView Id Rest} :
      parent ∈ rows → row.parentId = some parent.id → Rooted rows parent →
      Rooted rows row

theorem byParentOf_concat
    (rows : List (NodeView Id Rest))
    (row : NodeView Id Rest) :
    byParentOf (rows ++ [row]) = (byParentOf rows).push row.parentId row := by
  rw [byParentOf, foldl_append]
  rfl

theorem listAt_byParentOf
    (rows : List (NodeView Id Rest))
    (parentId : Option Id) :
    (byParentOf rows).listAt parentId =
      rows.filter fun row => row.parentId = parentId := by
  have built := listAt_foldl_push NodeView.parentId id rows .empty parentId
  rw [map_id] at built
  exact built

theorem perm_byParentOf (rows : List (NodeView Id Rest)) :
    (byParentOf rows).values.flatten.Perm rows := by
  induction rows using List.reverseRecOn with
  | nil => exact List.Perm.refl _
  | append_singleton rows row inductionHypothesis =>
    rw [byParentOf_concat]
    exact ((perm_flatten_push _ _ row).trans
      (inductionHypothesis.cons row)).trans
        (perm_append_singleton row rows).symm

/-- Where the queue stands: what it took, what it holds and what is left. -/
structure Drained
    (rows : List (NodeView Id Rest))
    (byParent : OrderedMap (Option Id) (List (NodeView Id Rest)))
    (ordered queue : List (NodeView Id Rest)) :
    Prop where
  whole : (ordered ++ (queue ++ byParent.values.flatten)).Perm rows
  rooted : ∀ row, row ∈ ordered ∨ row ∈ queue → Rooted rows row
  parents : ∀ {before row after parentId},
    ordered = before ++ row :: after →
    row.parentId = some parentId →
    ∃ parent ∈ before, parent.id = parentId
  waiting : ∀ row ∈ queue, ∀ parentId, row.parentId = some parentId →
    ∃ parent ∈ ordered, parent.id = parentId
  /-- A list left is of the rows that name its parent, which was not taken. -/
  left : ∀ {parentId list}, byParent.get? parentId = some list →
    (∃ id, parentId = some id ∧ ∀ row ∈ ordered, row.id ≠ id) ∧
      ∀ row ∈ list, row.parentId = parentId

section Draining

variable {byParent : OrderedMap (Option Id) (List (NodeView Id Rest))}
  {ordered queue children : List (NodeView Id Rest)}
  {row : NodeView Id Rest}

/-- The parent of a drained row was drained before it. -/
theorem Drained.parents_concat
    (drained : Drained rows byParent ordered (row :: queue))
    {before after : List (NodeView Id Rest)}
    {other : NodeView Id Rest}
    {parentId : Id}
    (split : ordered ++ [row] = before ++ other :: after)
    (isParent : other.parentId = some parentId) :
    ∃ parent ∈ before, parent.id = parentId := by
  rcases append_eq_append_iff.mp split with
    ⟨between, rfl, last⟩ | ⟨between, earlier, last⟩
  · cases between with
    | nil =>
      obtain ⟨rfl, _⟩ := List.cons.inj last
      rw [append_nil]
      exact drained.waiting row (by simp) parentId isParent
    | cons first between =>
      have longer := congrArg List.length last
      simp at longer
  · cases between with
    | nil =>
      rw [append_nil] at earlier
      obtain ⟨rfl, _⟩ := List.cons.inj last
      rw [← earlier]
      exact drained.waiting other (by simp) parentId isParent
    | cons first between =>
      obtain ⟨rfl, _⟩ := List.cons.inj last
      exact drained.parents earlier isParent

/-- Draining a childless row keeps the queue's account. -/
theorem Drained.take
    (drained : Drained rows byParent ordered (row :: queue))
    (childless : byParent.get? (some row.id) = none) :
    Drained rows byParent (ordered ++ [row]) queue where
  whole := by
    have whole := drained.whole
    rw [append_assoc]
    exact whole
  rooted := by
    intro other member
    refine drained.rooted other ?_
    rcases member with taken | waits
    · rcases mem_append.mp taken with earlier | own
      · exact .inl earlier
      · exact .inr (by simp_all)
    · exact .inr (mem_cons_of_mem _ waits)
  parents split isParent := drained.parents_concat split isParent
  waiting other member parentId isParent := by
    obtain ⟨parent, taken, same⟩ :=
      drained.waiting other (mem_cons_of_mem _ member) parentId isParent
    exact ⟨parent, mem_append_left _ taken, same⟩
  left := by
    intro parentId list found
    obtain ⟨⟨id, rfl, untaken⟩, each⟩ := drained.left found
    refine ⟨⟨id, rfl, ?_⟩, each⟩
    intro other member
    rcases mem_append.mp member with earlier | own
    · exact untaken other earlier
    · rw [mem_singleton.mp own]
      rintro rfl
      rw [childless] at found
      cases found

/-- Draining a row brings its children into the queue. -/
theorem Drained.bring
    (drained : Drained rows byParent ordered (row :: queue))
    (found : byParent.get? (some row.id) = some children) :
    Drained rows (byParent.erase (some row.id)) (ordered ++ [row])
      (queue ++ children) := by
  have each := (drained.left found).2
  have known : row ∈ rows :=
    drained.whole.subset (by simp)
  exact {
    whole := by
      have whole := drained.whole
      refine List.Perm.trans ?_ whole
      rw [append_assoc, append_assoc]
      refine List.Perm.append_left _ (List.Perm.append_left [row]
        (List.Perm.append_left _ ?_))
      exact perm_flatten_erase found
    rooted := by
      intro other member
      rcases member with taken | waits
      · rcases mem_append.mp taken with earlier | own
        · exact drained.rooted other (.inl earlier)
        · rw [mem_singleton.mp own]
          exact drained.rooted row (.inr (by simp))
      · rcases mem_append.mp waits with earlier | child
        · exact drained.rooted other (.inr (mem_cons_of_mem _ earlier))
        · exact .under known (each other child)
            (drained.rooted row (.inr (by simp)))
    parents := fun split isParent => drained.parents_concat split isParent
    waiting := by
      intro other member parentId isParent
      rcases mem_append.mp member with earlier | child
      · obtain ⟨parent, taken, same⟩ :=
          drained.waiting other (mem_cons_of_mem _ earlier) parentId isParent
        exact ⟨parent, mem_append_left _ taken, same⟩
      · rw [each other child] at isParent
        exact ⟨row, by simp, Option.some.inj isParent⟩
    left := by
      intro parentId list held
      rw [get?_erase] at held
      split at held
      · cases held
      · next other =>
          obtain ⟨⟨id, rfl, untaken⟩, eachLeft⟩ := drained.left held
          refine ⟨⟨id, rfl, ?_⟩, eachLeft⟩
          intro taken member
          rcases mem_append.mp member with earlier | own
          · exact untaken taken earlier
          · rw [mem_singleton.mp own]
            rintro rfl
            exact other rfl
  }

/-- Every rooted row has been drained when the queue is empty. -/
theorem Drained.mem_ordered
    (drained : Drained rows byParent ordered [])
    (known : row ∈ rows)
    (rooted : Rooted rows row) :
    row ∈ ordered := by
  have taken : ∀ row : NodeView Id Rest, row ∈ rows →
      (∀ parentId, row.parentId = some parentId →
        ∃ parent ∈ ordered, parent.id = parentId) →
      row ∈ ordered := by
    intro row known above
    rcases mem_append.mp (drained.whole.symm.subset known) with taken | rest
    · exact taken
    · obtain ⟨list, held, member⟩ := mem_flatten.mp rest
      obtain ⟨parentId, found⟩ := mem_values.mp held
      obtain ⟨⟨id, rfl, untaken⟩, each⟩ := drained.left found
      obtain ⟨parent, isTaken, same⟩ := above id (each row member)
      exact absurd same (untaken parent isTaken)
  induction rooted with
  | top noParent =>
    refine taken _ known fun parentId isParent => ?_
    rw [noParent] at isParent
    cases isParent
  | @under row parent inRows isParent _ inductionHypothesis =>
    refine taken _ known fun parentId names => ?_
    rw [isParent] at names
    exact ⟨parent, inductionHypothesis inRows, Option.some.inj names⟩

theorem Drained.not_rooted
    (drained : Drained rows byParent ordered [])
    (leftOver : row ∈ byParent.values.flatten) :
    ¬ Rooted rows row := by
  intro rooted
  obtain ⟨list, held, member⟩ := mem_flatten.mp leftOver
  obtain ⟨parentId, found⟩ := mem_values.mp held
  obtain ⟨⟨id, rfl, untaken⟩, each⟩ := drained.left found
  have names := each row member
  cases rooted with
  | top noParent =>
    rw [noParent] at names
    cases names
  | @under _ parent inRows isParent rooted =>
    rw [isParent] at names
    exact untaken parent (drained.mem_ordered inRows rooted)
      (Option.some.inj names)

theorem Drained.drain
    (drained : Drained rows byParent ordered queue) :
    ∃ left : OrderedMap (Option Id) (List (NodeView Id Rest)),
      Drained rows left (drain byParent ordered queue).ordered [] ∧
        (drain byParent ordered queue).orphans = left.values.flatten := by
  fun_induction Catalogue.drain byParent ordered queue with
  | case1 byParent ordered => exact ⟨byParent, drained, rfl⟩
  | case2 byParent ordered row queue childless inductionHypothesis =>
    exact inductionHypothesis (drained.take childless)
  | case3 byParent ordered row queue children found fewer inductionHypothesis =>
    exact inductionHypothesis (drained.bring found)

end Draining

theorem perm_erase_top (rows : List (NodeView Id Rest)) :
    ((byParentOf rows).listAt none ++
      ((byParentOf rows).erase none).values.flatten).Perm rows := by
  refine List.Perm.trans ?_ (perm_byParentOf rows)
  cases found : (byParentOf rows).get? none with
  | some list =>
    rw [listAt_of_get? found]
    exact perm_flatten_erase found
  | none =>
    have absent := get?_eq_none.mp found
    have kept : ((byParentOf rows).erase none).entries =
        (byParentOf rows).entries := by
      refine filter_eq_self.mpr fun entry member => decide_eq_true ?_
      intro isTop
      exact absent (isTop ▸ mem_map_of_mem member)
    rw [OrderedMap.listAt, found, OrderedMap.values, kept]
    exact List.Perm.refl _

/-- The queue starts with the rows that have no parent. -/
theorem drained_top (rows : List (NodeView Id Rest)) :
    Drained rows ((byParentOf rows).erase none) []
      ((byParentOf rows).listAt none) := by
  have top : ∀ row ∈ (byParentOf rows).listAt none, row.parentId = none := by
    intro row member
    rw [listAt_byParentOf] at member
    exact of_decide_eq_true (mem_filter.mp member).2
  exact {
    whole := perm_erase_top rows
    rooted := by
      rintro row (taken | waits)
      · cases taken
      · exact .top (top row waits)
    parents := fun split => by simp at split
    waiting := by
      intro row member parentId isParent
      rw [top row member] at isParent
      cases isParent
    left := by
      intro parentId list held
      rw [get?_erase] at held
      split at held
      · cases held
      · next under =>
          obtain ⟨id, rfl⟩ := Option.ne_none_iff_exists'.mp under
          refine ⟨⟨id, rfl, fun _ member => by cases member⟩, ?_⟩
          intro row member
          rw [← listAt_of_get? held, listAt_byParentOf] at member
          exact of_decide_eq_true (mem_filter.mp member).2
  }

/--
For any rows served, `parentsBefore` gives each id once, at its last copy, and
after its parent unless the parents above it come in a circle, and leaves a list
already so as it is; `parentsFirst` parts the rows into those a chain of parents
leads up from, each after its parent, and the rest.
-/
theorem parents_ordered (rows : List (NodeView Id Rest)) :
    ((parentsBefore rows).map NodeView.id).Nodup ∧
    (∀ row, row ∈ parentsBefore rows ↔ lastCopy rows row.id = some row) ∧
    (∀ before row after parent,
      parentsBefore rows = before ++ row :: after →
      Under rows row parent →
      ¬ Cyclic rows row →
      parent ∈ before) ∧
    ((rows.map NodeView.id).Nodup →
      (∀ before row after parent,
        rows = before ++ row :: after →
        parent ∈ rows →
        row.parentId = some parent.id →
        parent ∈ before) →
      parentsBefore rows = rows) ∧
    ((parentsFirst rows).ordered ++ (parentsFirst rows).orphans).Perm rows ∧
    (∀ row, row ∈ (parentsFirst rows).ordered ↔ row ∈ rows ∧ Rooted rows row) ∧
    (∀ row, row ∈ (parentsFirst rows).orphans ↔ row ∈ rows ∧ ¬ Rooted rows row) ∧
    (∀ before row after parentId,
      (parentsFirst rows).ordered = before ++ row :: after →
      row.parentId = some parentId →
      ∃ parent ∈ before, parent.id = parentId) := by
  obtain ⟨placed, climbed, _⟩ := climbed_parentsBefore rows
  obtain ⟨left, drained, orphans⟩ := (drained_top rows).drain
  have whole : ((parentsFirst rows).ordered ++ (parentsFirst rows).orphans).Perm
      rows := by
    have whole := drained.whole
    rw [nil_append, ← orphans] at whole
    exact whole
  have isOrdered : ∀ row,
      row ∈ (parentsFirst rows).ordered ↔ row ∈ rows ∧ Rooted rows row := by
    intro row
    refine ⟨fun taken => ⟨whole.subset (mem_append_left _ taken),
      drained.rooted row (.inl taken)⟩, ?_⟩
    rintro ⟨known, rooted⟩
    exact drained.mem_ordered known rooted
  refine ⟨climbed.distinct, fun row => mem_parentsBefore, ?_, ?_, whole,
    isOrdered, ?_, ?_⟩
  · intro before row after parent split under straight
    exact climbed.parents split under straight
  · intro distinct parents
    exact parentsBefore_of_ordered distinct fun split => parents _ _ _ _ split
  · intro row
    constructor
    · intro orphan
      refine ⟨whole.subset (mem_append_right _ orphan), ?_⟩
      rw [parentsFirst, orphans] at orphan
      exact drained.not_rooted orphan
    · rintro ⟨known, cut⟩
      rcases mem_append.mp (whole.symm.subset known) with taken | orphan
      · exact absurd (drained.rooted row (.inl taken)) cut
      · exact orphan
  · intro before row after parentId split isParent
    exact drained.parents split isParent

end Catalogue

end HushOS
