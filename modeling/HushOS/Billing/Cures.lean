import HushOS.Billing.Tenure

namespace HushOS

open Toolkit List OrderedMap

namespace Billing

/-!
# Cures

A family with two live plans keeps one.  The others are marked superseded by it
in the one write that may mark, beside a plan that stays live, and never the one
that serves; a mark and its cutoff stand for good.
-/

/-- The mark of a plan. -/
def Own.mark (own : Own) : Option Time × Option PlanId × Option Time :=
  (own.supersededAt, own.supersededBy, own.supersededPaidAfter)

/-- The mark of a plan, none where it has no row. -/
def markAt
    (plans : OrderedMap PlanId Plan)
    (id : PlanId) : Option Time × Option PlanId × Option Time :=
  (ownAt plans id).mark

variable {id : PlanId} {plans : OrderedMap PlanId Plan} {seen : List (PlanId × Nat)}

theorem markAt_of_found
    {row : Plan}
    (found : plans.get? id = some row) :
    markAt plans id =
      (row.supersededAt, row.supersededBy, row.supersededPaidAfter) := by
  rw [markAt, ownAt, found]
  rfl

theorem found_of_marked
    (marked : (markAt plans id).1 ≠ none) :
    ∃ row, plans.get? id = some row := by
  cases found : plans.get? id with
  | none =>
    rw [markAt, ownAt, found] at marked
    exact absurd rfl marked
  | some row =>
    exact ⟨row, rfl⟩

theorem markAt_settleTenure
    (plans : OrderedMap PlanId Plan)
    (order : List PlanId)
    (now : Time) :
    markAt (settleTenure plans order now).2 = markAt plans := by
  funext id
  rw [markAt, ownAt, get?_settleTenure, markAt, ownAt]
  cases plans.get? id with
  | none =>
    rfl
  | some row =>
    simp only [Option.map_some, Option.getD_some]
    split
    · rfl
    · split <;> rfl

theorem markAt_of_ownAt
    {plans after : OrderedMap PlanId Plan}
    (same : ownAt after = ownAt plans) :
    markAt after = markAt plans := by
  funext id
  rw [markAt, same, markAt]

section Beside

variable {before : OrderedMap PlanId Plan} {kept : PlanId} {clock : Time}

/-- Ending the plans beside the kept one marks those and no others. -/
theorem get?_endBeside
    (others : List (PlanId × Plan))
    (family : Family)
    (id : PlanId) :
    (others.foldl (endBeside before kept clock) family).plans.get? id =
      (family.plans.get? id).map fun row =>
        if id ∈ others.map Prod.fst ∧ row.supersededAt = none then
          row.mark kept (cutoffOf before id) clock
        else
          row := by
  induction others generalizing family with
  | nil =>
    cases found : family.plans.get? id <;> simp [found]
  | cons first rest inductionHypothesis =>
    rw [foldl_cons, inductionHypothesis, endBeside]
    dsimp only
    rw [supersede, get?_update, Option.map_map]
    cases family.plans.get? id with
    | none =>
      rfl
    | some row =>
      simp only [Option.map_some, Function.comp_apply, map_cons,
        mem_cons]
      by_cases same : id = first.1
      · subst same
        cases marked : row.supersededAt <;> simp [marked, Plan.mark]
      · simp only [same, decide_false, Bool.false_and, Bool.false_eq_true,
          ↓reduceIte, false_or]

/-- Each plan ended beside the kept one is billed up to its cutoff. -/
theorem endings_endBeside
    (others : List (PlanId × Plan))
    (family : Family)
    (id : PlanId) :
    (others.foldl (endBeside before kept clock) family).endings.get? id =
      (family.endings.get? id).or
        (if id ∈ others.map Prod.fst then
          some { paidAfter := some (cutoffOf before id) }
        else
          none) := by
  induction others generalizing family with
  | nil =>
    simp
  | cons first rest inductionHypothesis =>
    rw [foldl_cons, inductionHypothesis, endBeside]
    dsimp only
    by_cases same : id = first.1
    · subst same
      split
      · next there =>
          obtain ⟨ending, found⟩ :=
            OrderedMap.mem_keys.mp (has_iff.mp there)
          rw [found]
          rfl
      · next absent =>
          have none_ : family.endings.get? first.1 = none := by
            refine get?_eq_none.mpr fun listed => absent ?_
            exact has_iff.mpr listed
          rw [get?_set, if_pos rfl, none_]
          simp
    · have others_ : id ∈ List.map Prod.fst (first :: rest) ↔
          id ∈ rest.map Prod.fst := by
        simp [same]
      simp only [others_]
      split
      · rfl
      · rw [get?_set, if_neg same]

end Beside

theorem mem_cureOrder
    {line : List (PlanId × Plan)}
    (ordered : cureOrder plans seen = line)
    {entry : PlanId × Plan}
    (member : entry ∈ line) :
    plans.get? entry.1 = some entry.2 ∧ entry.2.live = true := by
  rw [← ordered] at member
  have listed := (perm_insertionSort _ _).mem_iff.mp member
  obtain ⟨there, conditions⟩ := mem_filter.mp listed
  exact ⟨mem_entries.mp there,
    (Bool.and_eq_true_iff.mp conditions).1⟩

theorem nodup_cureOrder
    (plans : OrderedMap PlanId Plan)
    (seen : List (PlanId × Nat)) :
    ((cureOrder plans seen).map Prod.fst).Nodup := by
  refine (List.Perm.nodup_iff
    ((perm_insertionSort _ _).map Prod.fst)).mpr ?_
  exact plans.nodup.sublist (filter_sublist.map Prod.fst)

theorem cureRank_le_of_cureOrder
    {kept : PlanId × Plan}
    {others : List (PlanId × Plan)}
    (ordered : cureOrder plans seen = kept :: others)
    {other : PlanId × Plan}
    (member : other ∈ others) :
    cureRank seen kept ≤ cureRank seen other := by
  have sorted := pairwise_insertionSort
    (fun first second => cureRank seen first ≤ cureRank seen second)
    (plans.entries.filter fun entry =>
      entry.2.live && (createdAt seen entry.1).isSome)
  have pairwise : (cureOrder plans seen).Pairwise fun first second =>
      cureRank seen first ≤ cureRank seen second := sorted
  rw [ordered] at pairwise
  exact (pairwise_cons.mp pairwise).1 other member

/-- None of the plans cured away is the one that serves. -/
theorem not_serving_of_others
    {kept : PlanId × Plan}
    {others : List (PlanId × Plan)}
    (ordered : cureOrder plans seen = kept :: others)
    (one : ∀ id row other otherRow, plans.get? id = some row →
      plans.get? other = some otherRow →
        row.servedSince ≠ none → otherRow.servedSince ≠ none → other = id)
    {other : PlanId × Plan}
    (member : other ∈ others) :
    other.2.servedSince = none := by
  by_contra serves
  have keptThere : plans.get? kept.1 = some kept.2 :=
    (mem_cureOrder ordered mem_cons_self).1
  have otherThere : plans.get? other.1 = some other.2 :=
    (mem_cureOrder ordered (mem_cons_of_mem _ member)).1
  have differ : kept.1 ≠ other.1 := by
    have once := nodup_cureOrder plans seen
    rw [ordered, map_cons] at once
    intro same
    exact (nodup_cons.mp once).1
      (same ▸ mem_map_of_mem (f := Prod.fst) member)
  have below := cureRank_le_of_cureOrder ordered member
  have stopped : kept.2.servedSince = none := by
    by_contra keptServes
    exact differ (one other.1 other.2 kept.1 kept.2 otherThere keptThere
      serves keptServes)
  obtain ⟨since, servedSince⟩ := Option.ne_none_iff_exists'.mp serves
  rw [cureRank, cureRank, stopped, servedSince, Prod.Lex.toLex_le_toLex]
    at below
  rcases below with less | ⟨equal, _⟩
  · exact absurd (OrderDual.toDual_lt_toDual.mp less) not_lt_bot
  · cases equal

theorem live_of_settleTenure
    (order : List PlanId)
    (now : Time)
    {row : Plan}
    (found : plans.get? id = some row)
    (live : row.live = true) :
    ∃ after, (settleTenure plans order now).2.get? id = some after ∧
      after.live = true := by
  rw [get?_settleTenure, found]
  refine ⟨_, rfl, ?_⟩
  split
  · exact live
  · dsimp only
    split
    · exact live
    · exact live

/-- Where tenures stay, still at most one plan serves. -/
theorem one_of_tenureAt
    {plans after : OrderedMap PlanId Plan}
    (settled : Settled plans)
    (same : tenureAt after = tenureAt plans) :
    ∀ id row other otherRow, after.get? id = some row →
      after.get? other = some otherRow →
        row.servedSince ≠ none → otherRow.servedSince ≠ none →
          other = id := by
  have serving : ∀ id row, after.get? id = some row →
      row.servedSince ≠ none →
        ∃ before, plans.get? id = some before ∧
          before.servedSince ≠ none := by
    intro id row found serves
    have tenure := congrFun same id
    rw [tenureAt_of_found found] at tenure
    cases there : plans.get? id with
    | none =>
      rw [tenureAt, ownAt, there] at tenure
      exact absurd (congrArg Prod.fst tenure) serves
    | some before =>
      rw [tenureAt_of_found there] at tenure
      refine ⟨before, rfl, ?_⟩
      have since : row.servedSince = before.servedSince :=
        congrArg Prod.fst tenure
      rw [← since]
      exact serves
  intro id row other otherRow found otherFound serves otherServes
  obtain ⟨before, there, beforeServes⟩ := serving id row found serves
  obtain ⟨otherBefore, otherThere, otherBeforeServes⟩ :=
    serving other otherRow otherFound otherServes
  exact settled.one id before other otherBefore there otherThere beforeServes
    otherBeforeServes

/-- What a reading writes before a cure. -/
def uncured (family : Family) (reading : Reading) : Family :=
  { upsertCustomer family reading with
    plans := writePlans (upsertCustomer family reading).plans reading }

theorem writeReading_cases
    (family : Family)
    (reading : Reading) :
    writeReading family reading = uncured family reading ∨
      ∃ seen kept others,
        cureOrder (uncured family reading).plans seen = kept :: others ∧
          writeReading family reading =
            others.foldl (endBeside family.plans kept.1 reading.clock)
              (uncured family reading) := by
  unfold writeReading
  dsimp only
  split
  · exact .inl rfl
  · next seen _ =>
      unfold supersedeOthers
      split
      · exact .inl rfl
      · split
        · exact .inl rfl
        · next kept keptRow others ordered =>
            exact .inr ⟨seen, (kept, keptRow), others, ordered, rfl⟩

theorem rest_upsertCustomer (family : Family) (reading : Reading) :
    (upsertCustomer family reading).plans = family.plans ∧
      (upsertCustomer family reading).endings = family.endings ∧
      (upsertCustomer family reading).group = family.group ∧
      (upsertCustomer family reading).pool = family.pool := by
  unfold upsertCustomer
  split <;> exact ⟨rfl, rfl, rfl, rfl⟩

theorem ownAt_uncured (family : Family) (reading : Reading) :
    ownAt (uncured family reading).plans = ownAt family.plans := by
  unfold uncured
  rw [(rest_upsertCustomer family reading).1]
  exact ownAt_writePlans reading

/-- What a write does to a plan's mark. -/
inductive MarkChange (before after : Family) (id : PlanId) : Prop
  /-- Nothing. -/
  | same (same : markAt after.plans id = markAt before.plans id)
  /-- It marks a plan that does not serve, beside one it leaves live. -/
  | marked
      {kept : PlanId}
      {keptRow : Plan}
      {clock : Time}
      (unmarked : (markAt before.plans id).1 = none)
      (differs : kept ≠ id)
      (found : after.plans.get? kept = some keptRow)
      (live : keptRow.live = true)
      (stopped : before.serves id = false)
      (mark : markAt after.plans id =
        (some clock, some kept, some (cutoffOf before.plans id)))

/-- A reading changes a plan's mark only as a cure may. -/
theorem markChange_writeReading
    {family : Family}
    (settled : Settled family.plans)
    (reading : Reading)
    {after : Family}
    (plans : after.plans = (settleTenure (writeReading family reading).plans
      reading.order reading.now).2)
    (id : PlanId) :
    MarkChange family after id := by
  have marks : markAt after.plans =
      markAt (writeReading family reading).plans := by
    rw [plans, markAt_settleTenure]
  rcases writeReading_cases family reading with
    same | ⟨seen, kept, others, ordered, same⟩
  · refine .same ?_
    rw [marks, same, markAt_of_ownAt (ownAt_uncured family reading)]
  · have own := congrFun (ownAt_uncured family reading) id
    have keptThere := mem_cureOrder ordered mem_cons_self
    have once := nodup_cureOrder (uncured family reading).plans seen
    rw [ordered, map_cons] at once
    have keptAside := (nodup_cons.mp once).1
    have read : (writeReading family reading).plans.get? id =
        ((uncured family reading).plans.get? id).map fun row =>
          if id ∈ others.map Prod.fst ∧ row.supersededAt = none then
            row.mark kept.1 (cutoffOf family.plans id) reading.clock
          else
            row := by
      rw [same]
      exact get?_endBeside others _ id
    cases found : (uncured family reading).plans.get? id with
    | none =>
      refine .same ?_
      rw [found] at read
      rw [marks, markAt, ownAt, read, markAt, ← own, ownAt, found]
      rfl
    | some row =>
      rw [found, Option.map_some] at read
      by_cases beside : id ∈ others.map Prod.fst ∧ row.supersededAt = none
      · rw [if_pos beside] at read
        obtain ⟨entry, among, isId⟩ := mem_map.mp beside.1
        have entryThere :=
          (mem_cureOrder ordered (mem_cons_of_mem _ among)).1
        have sameRow : entry.2 = row := by
          rw [isId, found] at entryThere
          exact (Option.some.inj entryThere).symm
        have rowStopped : row.servedSince = none := by
          rw [← sameRow]
          refine not_serving_of_others ordered ?_ among
          exact one_of_tenureAt settled
            (tenureAt_of_ownAt (ownAt_uncured family reading))
        have tenure := congrFun
          (tenureAt_of_ownAt (ownAt_uncured family reading)) id
        rw [tenureAt_of_found found] at tenure
        have keptRead : (writeReading family reading).plans.get? kept.1 =
            some kept.2 := by
          rw [same, get?_endBeside, keptThere.1, Option.map_some,
            if_neg fun both => keptAside both.1]
        obtain ⟨keptRow, keptFound, keptLive⟩ := live_of_settleTenure
          reading.order reading.now keptRead keptThere.2
        refine .marked ?_ ?_ (plans ▸ keptFound) keptLive ?_
          (?_ : _ = (some reading.clock, _, _))
        · have mark : markAt family.plans id =
              (row.supersededAt, row.supersededBy,
                row.supersededPaidAfter) := by
            rw [markAt, ← own, ownAt, found]
            rfl
          rw [mark]
          exact beside.2
        · intro isKept
          exact keptAside (isKept ▸ beside.1)
        · rw [Family.serves, ← tenure, rowStopped]
          rfl
        · rw [marks, markAt_of_found read]
          rfl
      · rw [if_neg beside] at read
        refine .same ?_
        rw [marks, markAt_of_found read, markAt, ← own, ownAt, found]
        rfl

/-- Every operation changes a plan's mark only as a cure may. -/
theorem markChange_step
    (grace : Nat)
    {family : Family}
    (settled : Settled family.plans)
    (op : Op)
    (id : PlanId) :
    MarkChange family (step grace family op) id := by
  have untouched : ∀ after : Family, after.plans = family.plans →
      MarkChange family after id := by
    intro after same
    refine .same ?_
    rw [same]
  cases op with
  | apply reading =>
    rcases applyGroupState_cases grace family reading with
      same | ⟨group, customer, _, same⟩
    · exact untouched _ (congrArg Family.plans same)
    · have unchanged :
          Settled ({ family with customer := customer } : Family).plans :=
        settled
      have change := markChange_writeReading unchanged reading
        (congrArg Family.plans same) id
      cases change with
      | same same =>
        exact .same same
      | marked unmarked differs found live stopped mark =>
        exact .marked unmarked differs found live stopped mark
  | recordUnread unread readingFrom order now =>
    rcases recordUnread_cases family unread readingFrom order now with
      same | ⟨_, customer, same⟩
    · exact untouched _ (congrArg Family.plans same)
    · refine .same ?_
      have plans := congrArg Family.plans same
      dsimp only at plans
      rw [step, plans, markAt_settleTenure]
      exact congrFun (markAt_of_ownAt ((ownAt_markChanged _ _).trans
        (ownAt_writeUnread unread))) id
  | ensureCustomer =>
    refine untouched _ ?_
    dsimp only [step]
    split <;> rfl
  | endLapsed id =>
    exact untouched _ rfl
  | endSuperseded other =>
    refine untouched _ ?_
    dsimp only [step]
    split
    · rfl
    · split <;> rfl
  | endOrphaned other paidAfter =>
    refine untouched _ ?_
    dsimp only [step]
    split <;> rfl
  | purge =>
    exact untouched _ rfl

/-- A family's group and pool change only together, as projected. -/
theorem given_step
    (grace : Nat)
    (family : Family)
    (op : Op) :
    ((step grace family op).group = family.group ∧
        (step grace family op).pool = family.pool ∧
        markAt (step grace family op).plans = markAt family.plans) ∨
      (step grace family op).group = none ∨
      ∃ group pool, (step grace family op).group = some group ∧
        (step grace family op).pool = some pool ∧
        ∀ order, (group.seatLimit, pool) =
          projection grace
            ((familyPlan (step grace family op).plans order).map
              Prod.snd) := by
  cases op with
  | apply reading =>
    dsimp only [step]
    rcases applyGroupState_cases grace family reading with
      same | ⟨group, customer, _, same⟩ <;> rw [same]
    · exact .inl ⟨rfl, rfl, rfl⟩
    · refine .inr (.inr ⟨_, _, rfl, rfl, fun order => ?_⟩)
      exact (projection_settleTenure grace _ reading.order order
        reading.now).symm
  | recordUnread unread readingFrom order now =>
    dsimp only [step]
    rcases recordUnread_cases family unread readingFrom order now with
      same | ⟨_, customer, same⟩ <;> rw [same]
    · exact .inl ⟨rfl, rfl, rfl⟩
    · refine .inl ⟨rfl, rfl, ?_⟩
      exact (markAt_settleTenure _ order now).trans
        (markAt_of_ownAt ((ownAt_markChanged _ _).trans
          (ownAt_writeUnread unread)))
  | ensureCustomer =>
    dsimp only [step]
    split <;> exact .inl ⟨rfl, rfl, rfl⟩
  | endLapsed id =>
    exact .inl ⟨rfl, rfl, rfl⟩
  | endSuperseded id =>
    dsimp only [step]
    split
    · exact .inl ⟨rfl, rfl, rfl⟩
    · split <;> exact .inl ⟨rfl, rfl, rfl⟩
  | endOrphaned id paidAfter =>
    dsimp only [step]
    split <;> exact .inl ⟨rfl, rfl, rfl⟩
  | purge =>
    exact .inr (.inl rfl)

/-- The cutoff an ending says of a plan. -/
def endedFrom (family : Family) (id : PlanId) : Option Time :=
  (family.endings.get? id).bind Ending.paidAfter

/-- What marks and endings say of a family's plans is one. -/
structure Marks (family : Family) : Prop where
  /-- A mark has its cutoff. -/
  cutoff : ∀ id, (markAt family.plans id).1 ≠ none →
    (markAt family.plans id).2.2 ≠ none
  /-- Until the family is purged an ending's cutoff is its plan's mark's. -/
  ending : family.group ≠ none → ∀ id time, endedFrom family id = some time →
    (markAt family.plans id).1 ≠ none ∧
      (markAt family.plans id).2.2 = some time

section Endings

variable {family later : Family}

theorem MarkChange.stands
    {id : PlanId}
    (change : MarkChange family later id)
    (marked : (markAt family.plans id).1 ≠ none) :
    markAt later.plans id = markAt family.plans id := by
  cases change with
  | same same =>
    exact same
  | marked unmarked differs found live stopped mark =>
    exact absurd unmarked marked

theorem Marks.cutoff_after
    (marks : Marks family)
    (changes : ∀ id, MarkChange family later id) :
    ∀ id, (markAt later.plans id).1 ≠ none →
      (markAt later.plans id).2.2 ≠ none := by
  intro id marked
  cases changes id with
  | same same =>
    rw [same] at marked ⊢
    exact marks.cutoff id marked
  | marked unmarked differs found live stopped mark =>
    rw [mark]
    nofun

theorem Marks.kept
    (marks : Marks family)
    (changes : ∀ id, MarkChange family later id)
    (group : later.group ≠ none → family.group ≠ none)
    (endings : ∀ id, endedFrom later id = endedFrom family id) :
    Marks later where
  cutoff := marks.cutoff_after changes
  ending := by
    intro hasGroup id time ends
    rw [endings] at ends
    obtain ⟨marked, same⟩ := marks.ending (group hasGroup) id time ends
    rw [(changes id).stands marked]
    exact ⟨marked, same⟩

theorem endedFrom_beginEnding
    (id other : PlanId)
    (paidAfter : Option Time) :
    endedFrom (beginEnding family id paidAfter) other =
      if other = id then (endedFrom family id).or paidAfter
      else endedFrom family other := by
  rw [endedFrom, beginEnding, get?_set]
  split
  · rfl
  · rfl

/-- A plan cured away is marked with the kept plan and its cutoff. -/
theorem markAt_of_others
    {reading : Reading}
    {seen : List (PlanId × Nat)}
    {kept : PlanId × Plan}
    {others : List (PlanId × Plan)}
    (ordered : cureOrder (uncured family reading).plans seen =
      kept :: others)
    {id : PlanId}
    (among : id ∈ others.map Prod.fst) :
    markAt (others.foldl (endBeside family.plans kept.1 reading.clock)
        (uncured family reading)).plans id =
      (some reading.clock, some kept.1,
        some (cutoffOf family.plans id)) := by
  obtain ⟨entry, member, rfl⟩ := mem_map.mp among
  obtain ⟨there, live⟩ :=
    mem_cureOrder ordered (mem_cons_of_mem _ member)
  have unmarked := (Plan.live_iff.mp live).2.2.2
  have read : (others.foldl (endBeside family.plans kept.1 reading.clock)
      (uncured family reading)).plans.get? entry.1 = _ :=
    get?_endBeside others (uncured family reading) entry.1
  rw [there, Option.map_some, if_pos ⟨among, unmarked⟩] at read
  rw [markAt_of_found read]
  rfl

/-- The marks stand after a reading is written. -/
theorem Marks.reading
    (settled : Settled family.plans)
    (marks : Marks family)
    (reading : Reading)
    (plans : later.plans = (settleTenure (writeReading family reading).plans
      reading.order reading.now).2)
    (endings : later.endings = (writeReading family reading).endings)
    (group : family.group ≠ none) :
    Marks later := by
  have changes := markChange_writeReading settled reading plans
  have marked : markAt later.plans =
      markAt (writeReading family reading).plans := by
    rw [plans, markAt_settleTenure]
  have uncuredEndings : (uncured family reading).endings = family.endings :=
    (rest_upsertCustomer family reading).2.1
  rcases writeReading_cases family reading with
    same | ⟨seen, kept, others, ordered, same⟩
  · refine marks.kept changes (fun _ => group) fun id => ?_
    rw [endedFrom, endings, same, uncuredEndings, endedFrom]
  · refine { cutoff := marks.cutoff_after changes, ending := ?_ }
    intro _ id time ends
    rw [endedFrom, endings, same, endings_endBeside, uncuredEndings] at ends
    cases before : family.endings.get? id with
    | some ending =>
      rw [before] at ends
      have said : endedFrom family id = some time := by
        rw [endedFrom, before]
        exact ends
      obtain ⟨wasMarked, cutoff⟩ := marks.ending group id time said
      rw [(changes id).stands wasMarked]
      exact ⟨wasMarked, cutoff⟩
    | none =>
      rw [before, Option.none_or] at ends
      split at ends
      · next among =>
          cases ends
          rw [marked, same, markAt_of_others ordered among]
          exact ⟨nofun, rfl⟩
      · cases ends

/-- The marks stand after every operation. -/
theorem Marks.step
    (settled : Settled family.plans)
    (marks : Marks family)
    (grace : Nat)
    (op : Op) :
    Marks (step grace family op) := by
  have changes := markChange_step grace settled op
  cases op with
  | apply reading =>
    rcases applyGroupState_cases grace family reading with
      same | ⟨group, customer, hasGroup, same⟩
    · refine marks.kept changes (fun hasGroup => ?_)
        fun id => congrArg (fun family => endedFrom family id) same
      exact (congrArg Family.group same) ▸ hasGroup
    · have unchanged : Marks { family with customer := customer } :=
        ⟨marks.cutoff, marks.ending⟩
      have stillSettled :
          Settled ({ family with customer := customer } : Family).plans :=
        settled
      refine Marks.reading stillSettled unchanged reading
        (congrArg Family.plans same)
        ((congrArg Family.endings same).trans rfl) fun gone => ?_
      exact absurd (hasGroup.symm.trans gone) nofun
  | recordUnread unread readingFrom order now =>
    rcases recordUnread_cases family unread readingFrom order now with
      same | ⟨_, customer, same⟩
    · refine marks.kept changes (fun hasGroup => ?_)
        fun id => congrArg (fun family => endedFrom family id) same
      exact (congrArg Family.group same) ▸ hasGroup
    · refine marks.kept changes (fun hasGroup => ?_) fun id => ?_
      · exact (congrArg Family.group same) ▸ hasGroup
      · exact (congrArg (fun next => endedFrom next id) same).trans rfl
  | ensureCustomer =>
    dsimp only [Billing.step] at changes ⊢
    split
    · next absent =>
        rw [if_pos absent] at changes
        exact marks.kept changes (fun group => group) fun _ => rfl
    · exact marks
  | endLapsed id =>
    refine marks.kept changes (fun group => group) fun other => ?_
    dsimp only [Billing.step]
    rw [endedFrom_beginEnding, Option.or_none]
    split
    · next same =>
        rw [same]
    · rfl
  | endSuperseded id =>
    dsimp only [Billing.step] at changes ⊢
    split
    · exact marks
    · next row found =>
        split
        · next isMarked =>
            refine { cutoff := marks.cutoff, ending := ?_ }
            intro group other time ends
            rw [endedFrom_beginEnding] at ends
            split at ends
            · next same =>
                subst same
                have mark : markAt family.plans other =
                    (row.supersededAt, row.supersededBy,
                      row.supersededPaidAfter) := markAt_of_found found
                have marked : (markAt family.plans other).1 ≠ none := by
                  rw [mark]
                  exact Option.isSome_iff_ne_none.mp isMarked
                cases said : endedFrom family other with
                | some earlier =>
                  rw [said] at ends
                  cases ends
                  exact marks.ending group other time said
                | none =>
                  rw [said, Option.none_or] at ends
                  refine ⟨marked, ?_⟩
                  have cutoff := marks.cutoff other marked
                  rw [mark] at cutoff
                  obtain ⟨cut, isCut⟩ :=
                    Option.ne_none_iff_exists'.mp cutoff
                  dsimp only at isCut
                  rw [isCut, Option.getD_some] at ends
                  rw [show (beginEnding family other
                    (some (row.supersededPaidAfter.getD 0))).plans =
                      family.plans from rfl, mark]
                  exact isCut.trans ends
            · exact marks.ending group other time ends
        · exact marks
  | endOrphaned id paidAfter =>
    dsimp only [Billing.step] at changes ⊢
    split
    · next gone =>
        refine { cutoff := marks.cutoff, ending := fun group => ?_ }
        exact absurd (Option.isNone_iff_eq_none.mp gone) group
    · exact marks
  | purge =>
    exact { cutoff := marks.cutoff, ending := fun group => absurd rfl group }

theorem marks_created (pooled : Bool) : Marks (.created pooled) where
  cutoff := fun _ marked => absurd rfl marked
  ending := fun _ id time ends => by cases ends

end Endings

/--
Whatever cures, reconciles and changes ran: a write that newly marks a plan
leaves beside it the one it was superseded by, live, readable and unmarked; it
never marks the plan that serves, and its cutoff is the end of the time the
plan served, as the row stood before.  A mark and its cutoff stand, the plan is
never the family's again, nor its places or pool, and no order made before the
cutoff is noted to refund.
-/
theorem cures_keep_one
    (grace : Nat)
    (pooled : Bool)
    (ops : List Op)
    (op : Op)
    {before after : Family}
    (reached : before = run grace (.created pooled) ops)
    (written : after = step grace before op) :
    (∀ id row, after.plans.get? id = some row → row.supersededAt ≠ none →
        (∀ earlier, before.plans.get? id = some earlier →
          earlier.supersededAt = none) →
        before.serves id = false ∧
          row.supersededPaidAfter =
            some (unwantedPlanCutoff (before.plans.get? id)) ∧
          ∃ kept keptRow, row.supersededBy = some kept ∧ kept ≠ id ∧
            after.plans.get? kept = some keptRow ∧
            keptRow.endedAt = none ∧ keptRow.status.live = true ∧
            keptRow.productUnread = false ∧ keptRow.supersededAt = none) ∧
      (∀ id row, before.plans.get? id = some row →
        row.supersededAt ≠ none →
          ∃ later, after.plans.get? id = some later ∧
            later.supersededAt = row.supersededAt ∧
            later.supersededBy = row.supersededBy ∧
            later.supersededPaidAfter = row.supersededPaidAfter) ∧
      (∀ order id row, familyPlan after.plans order = some (id, row) →
        row.supersededAt = none) ∧
      ((after.group = before.group ∧ after.pool = before.pool ∧
          markAt after.plans = markAt before.plans) ∨
        after.group = none ∨
        ∃ group pool, after.group = some group ∧ after.pool = some pool ∧
          ∀ order, (group.seatLimit, pool) =
            projection grace
              ((familyPlan after.plans order).map Prod.snd)) ∧
      (after.group ≠ none → ∀ id row, after.plans.get? id = some row →
        row.supersededAt ≠ none → ∀ orders,
          ∀ order ∈ ordersToRefund after id row orders,
            row.supersededPaidAfter.getD 0 ≤ order.createdAt) := by
  have both : Settled before.plans ∧ Marks before := by
    rw [reached]
    refine Runs.keeps_of_step (fun family : Family =>
      Settled family.plans ∧ Marks family) ?_ ops
      ⟨settled_empty, marks_created pooled⟩
    rintro family next ⟨settled, marks⟩
    exact ⟨settled_step settled next, marks.step settled grace next⟩
  obtain ⟨settled, marks⟩ := both
  have changes := markChange_step grace settled op
  have marksAfter : Marks (step grace before op) :=
    marks.step settled grace op
  rw [← written] at changes marksAfter
  refine ⟨fun id row found marked fresh => ?_, fun id row found marked => ?_,
    fun order id row chosen => ?_, ?_, fun group id row found marked orders
      order member => ?_⟩
  · have mark : markAt after.plans id =
        (row.supersededAt, row.supersededBy, row.supersededPaidAfter) :=
      markAt_of_found found
    cases changes id with
    | same same =>
      rw [mark] at same
      cases there : before.plans.get? id with
      | none =>
        rw [markAt, ownAt, there] at same
        exact absurd (congrArg Prod.fst same) marked
      | some earlier =>
        rw [markAt_of_found there] at same
        have equal : row.supersededAt = earlier.supersededAt :=
          congrArg Prod.fst same
        exact absurd (equal.trans (fresh earlier there)) marked
    | marked unmarked differs keptFound live stopped said =>
      next kept keptRow clock =>
      rw [mark] at said
      simp only [Prod.mk.injEq] at said
      obtain ⟨_, by_, cutoff⟩ := said
      exact ⟨stopped, cutoff, kept, keptRow, by_, differs, keptFound,
        Plan.live_iff.mp live⟩
  · have mark : markAt before.plans id =
        (row.supersededAt, row.supersededBy, row.supersededPaidAfter) :=
      markAt_of_found found
    have isMarked : (markAt before.plans id).1 ≠ none := by
      rw [mark]
      exact marked
    have stands := (changes id).stands isMarked
    obtain ⟨later, there⟩ := found_of_marked (stands ▸ isMarked)
    rw [markAt_of_found there, mark] at stands
    simp only [Prod.mk.injEq] at stands
    exact ⟨later, there, stands⟩
  · exact (Plan.live_iff.mp (familyPlan_eq_some chosen).2.1).2.2.2
  · rw [written]
    exact given_step grace before op
  · have mark : markAt after.plans id =
        (row.supersededAt, row.supersededBy, row.supersededPaidAfter) :=
      markAt_of_found found
    obtain ⟨_, conditions⟩ := mem_filter.mp member
    have late := of_decide_eq_true (Bool.and_eq_true_iff.mp conditions).2
    have from_ : refundedFrom after id row =
        row.supersededPaidAfter.getD 0 := by
      rw [refundedFrom]
      cases said : endedFrom after id with
      | none =>
        rw [endedFrom] at said
        rw [said, Option.getD_none]
      | some time =>
        have cutoff := (marksAfter.ending group id time said).2
        rw [mark] at cutoff
        rw [endedFrom] at said
        dsimp only at cutoff
        rw [said, cutoff]
        rfl
    rw [← from_]
    exact late

section Doubled

/-- A reconcile finds a second plan beside the first, and cures. -/
def doubled : Op :=
  .apply
    { reconciled 2 (boughtPlan .active) with
      subscriptions :=
        [boughtPlan .active, { boughtPlan .active with id := 2 }]
      cure := some [(1, 20), (2, 10)]
      sweepIds := some [1, 2] }

/-- Its first plan bought, a family has one. -/
def bought : List Op :=
  [.apply (reconciled 1 (boughtPlan .active))]

/-- The second is marked, and the first, which serves, is left to it. -/
theorem cures_keep_one_doubled :
    ∃ kept keptRow, kept ≠ 2 ∧
      (step 7 (run 7 (.created true) bought) doubled).plans.get? kept =
        some keptRow ∧
      keptRow.live = true := by
  let before := run 7 (.created true) bought
  let later := step 7 before doubled
  have isMarked : (markAt later.plans 2).1 ≠ none := by
    decide
  have absent : before.plans.get? 2 = none := by
    decide
  obtain ⟨row, found⟩ := found_of_marked isMarked
  rw [markAt_of_found found] at isMarked
  have reached : before = run 7 (.created true) bought := rfl
  have written : later = step 7 before doubled := rfl
  have cured := (cures_keep_one 7 true bought doubled reached written).1
  obtain ⟨_, _, kept, keptRow, _, differs, there, live⟩ :=
    cured 2 row found isMarked fun earlier read => by
      rw [absent] at read
      cases read
  exact ⟨kept, keptRow, differs, there, Plan.live_iff.mpr live⟩

end Doubled

end Billing

end HushOS
