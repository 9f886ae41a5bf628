import HushOS.Billing.Accounts

namespace HushOS

open Toolkit List OrderedMap

namespace Billing

/-!
# The mirror only goes forward

The numbers of readings are drawn in turn, and answers need not come so: a
reconcile numbered later may read a plan before one numbered earlier does, and
then write the older answer over the newer.  Where that does not happen, rows
only go forward.
-/

theorem followed_run
    {grace : Nat}
    {pooled : Bool}
    {moves : List (Move Priced Extra Op)}
    (turn : Runs.Each (families grace).step (families grace).InTurn
      (World.start (.created pooled)) moves) :
    Followed ((families grace).run (World.start (.created pooled)) moves) :=
  Runs.keeps_of_each Followed
    (fun _ move inTurn followed => (followed.step move inTurn).followed) turn
    (followed_start pooled)

theorem followedPerson_run
    {graceMs : Nat}
    {moves : List (Move Nat Time Unit)}
    (turn : Runs.Each (people graceMs).step (people graceMs).InTurn
      (World.start .created) moves) :
    FollowedPerson ((people graceMs).run (World.start .created) moves) :=
  Runs.keeps_of_each FollowedPerson
    (fun _ move inTurn followed => (followed.step move inTurn).followed) turn
    followedPerson_start

/-- A refused write changes neither the family nor its sources. -/
theorem Followed.refused
    {grace number : Nat}
    {world : World Family Priced}
    (followed : Followed world)
    {extra : Extra}
    {flight : Flight Priced}
    {stamp : ReadingStamp}
    (found : world.flights.get? number = some flight)
    (stamped : flight.stamp = some stamp)
    (outcome :
      (familyWrite grace world.store flight stamp extra).1 ≠ .applied) :
    ((families grace).step world (.write number extra)).store = world.store ∧
      ((families grace).step world (.write number extra)).sources =
        world.sources := by
  rcases (families grace).write_cases found extra with
    same | ⟨_, same, ready, store, applied | sources⟩
  · exact same
  · cases stamped.symm.trans same
    exact absurd applied outcome
  · cases stamped.symm.trans same
    rcases familyWrite_spec grace (followed.fits number flight found) ready
        stamp extra with ⟨_, kept⟩ | ⟨applied, _⟩
    · exact ⟨store.trans kept, sources⟩
    · exact absurd applied outcome

/-- A write leaves the facts of every plan it did not read. -/
theorem Followed.unread
    {grace number : Nat}
    {world : World Family Priced}
    (followed : Followed world)
    {extra : Extra}
    {flight : Flight Priced}
    (found : world.flights.get? number = some flight)
    {id : PlanId}
    (unread : flight.seen.get? id = none) :
    factsAt ((families grace).step world (.write number extra)).store.plans
        id =
      factsAt world.store.plans id := by
  rcases (families grace).write_cases found extra with
    ⟨store, _⟩ | ⟨stamp, _, ready, store, _⟩
  · rw [store]
  · rw [store]
    rcases familyWrite_spec grace (followed.fits number flight found) ready
        stamp extra with ⟨_, same⟩ | ⟨_, wrote⟩
    · exact congrArg (factsAt ·.plans id) same
    · exact wrote.untouched ready unread

/-- A refused write changes neither the person nor its sources. -/
theorem refused_people
    {graceMs number : Nat}
    {world : World Person Nat}
    {now : Time}
    {flight : Flight Nat}
    {stamp : ReadingStamp}
    (found : world.flights.get? number = some flight)
    (stamped : flight.stamp = some stamp)
    (outcome : (applyCustomerState graceMs world.store flight.known
      flight.personal stamp now).1 ≠ .applied) :
    ((people graceMs).step world (.write number now)).store = world.store ∧
      ((people graceMs).step world (.write number now)).sources =
        world.sources := by
  rcases (people graceMs).write_cases found now with
    same | ⟨_, same, ready, store, applied | sources⟩
  · exact same
  · cases stamped.symm.trans same
    exact absurd applied outcome
  · cases stamped.symm.trans same
    rcases personWrite_spec graceMs world.store flight stamp now with
      ⟨_, kept⟩ | ⟨applied, _⟩
    · exact ⟨store.trans kept, sources⟩
    · exact absurd applied outcome

/-- A write leaves the row of every plan it did not read. -/
theorem unread_people
    {graceMs number : Nat}
    {world : World Person Nat}
    {now : Time}
    (turn : (people graceMs).InTurn world (.write number now))
    {flight : Flight Nat}
    (found : world.flights.get? number = some flight)
    {id : PlanId}
    (unread : flight.seen.get? id = none) :
    ((people graceMs).step world (.write number now)).store.plans.get? id =
      world.store.plans.get? id := by
  rcases (people graceMs).write_cases found now with
    ⟨store, _⟩ | ⟨stamp, stamped, ready, store, _⟩
  · rw [store]
  · rw [store]
    rcases personWrite_spec graceMs world.store flight stamp now with
      ⟨_, same⟩ | ⟨_, wrote⟩
    · exact congrArg (·.plans.get? id) same
    · exact wrote.untouched
        (turn flight stamp found stamped ready wrote.current).2 unread

/--
In every run whose writes are in turn, of a family's reconciles and changes and
of a person's reconciles, with the provider changing between any two steps:
what a row has, the provider answered; no part of it goes back to an earlier
answer; a write that does not apply changes nothing; none says anything of a
plan its reading never read; and all storage given and not revoked is of a plan
the last snapshot written has live.
-/
theorem answers_only_forward
    {grace : Nat}
    {pooled : Bool}
    {moves : List (Move Priced Extra Op)}
    {move : Move Priced Extra Op}
    {before after : World Family Priced}
    (reached : before =
      (families grace).run (World.start (.created pooled)) moves)
    (stepped : after = (families grace).step before move)
    (turn : Runs.Each (families grace).step (families grace).InTurn
      (World.start (.created pooled)) (moves ++ [move]))
    {graceMs : Nat}
    {ownMoves : List (Move Nat Time Unit)}
    {ownMove : Move Nat Time Unit}
    {own ownAfter : World Person Nat}
    (ownReached : own =
      (people graceMs).run (World.start .created) ownMoves)
    (ownStepped : ownAfter = (people graceMs).step own ownMove)
    (ownTurn : Runs.Each (people graceMs).step (people graceMs).InTurn
      (World.start .created) (ownMoves ++ [ownMove])) :
    ((∀ id facts, factsAt after.store.plans id = some facts →
        ∃ source, after.sources id = some source ∧
          Tells after.answers id facts source) ∧
      (∀ id source, before.sources id = some source →
        ∃ later, after.sources id = some later ∧ source.Le later) ∧
      ∀ number extra flight stamp, move = .write number extra →
        before.flights.get? number = some flight →
        flight.stamp = some stamp →
          ((familyWrite grace before.store flight stamp extra).1 ≠
              .applied →
            after.store = before.store ∧ after.sources = before.sources) ∧
          ∀ id, flight.seen.get? id = none →
            factsAt after.store.plans id =
              factsAt before.store.plans id) ∧
    (∀ id row, ownAfter.store.plans.get? id = some row →
        ∃ source, ownAfter.sources id = some source ∧
          PersonTells ownAfter.answers id row source) ∧
      (∀ id source, own.sources id = some source →
        ∃ later, ownAfter.sources id = some later ∧ source.Le later) ∧
      (∀ number now flight stamp, ownMove = .write number now →
        own.flights.get? number = some flight →
        flight.stamp = some stamp →
          ((applyCustomerState graceMs own.store flight.known
              flight.personal stamp now).1 ≠ .applied →
            ownAfter.store = own.store ∧
              ownAfter.sources = own.sources) ∧
          ∀ id, flight.seen.get? id = none →
            ownAfter.store.plans.get? id = own.store.plans.get? id) ∧
      Entitled ownAfter.store := by
  subst reached stepped ownReached ownStepped
  constructor
  · obtain ⟨earlier, last, _⟩ := Runs.each_append.mp turn
    have followed := followed_run earlier
    have advanced := followed.step move last
    refine ⟨advanced.followed.told, advanced.forward, ?_⟩
    rintro number extra flight stamp rfl found stamped
    exact ⟨fun outcome => followed.refused found stamped outcome,
      fun id unread => followed.unread found unread⟩
  · obtain ⟨earlier, last, _⟩ := Runs.each_append.mp ownTurn
    have followed := followedPerson_run earlier
    have advanced := followed.step ownMove last
    refine ⟨advanced.followed.told, advanced.forward, ?_,
      advanced.followed.given.entitled⟩
    rintro number now flight stamp rfl found stamped
    exact ⟨fun outcome => refused_people found stamped outcome,
      fun id unread => unread_people last found unread⟩

section Overtaken

/-- A plan bought, and the same plan ended. -/
def subscribed (status : Status) (endedAt : Option Time) : Subscription where
  productId := "family"
  status := status
  units := some 4
  currentPeriodStart := 100
  currentPeriodEnd := 130
  endedAt := endedAt

/-- Its product. -/
def familyProduct : Priced where
  includedMembers := 4
  quotaBytes := 200
  pendingUnits := none
  paid := true
  tier := some (some 200)

/-- What every write is given. -/
def plainly : Extra where
  cure := none
  now := 101
  clock := 101
  order := []

/--
The reconcile numbered second reads the plan; it ends; the one numbered first
reads it ended, and writes that.
-/
def overtaking : List (Move Priced Extra Op) :=
  [.provide 1 (some (subscribed .active none)),
    .reconcile 1 true,
    .reconcile 2 true,
    .list 1,
    .list 2,
    .ask 2 1 (some familyProduct),
    .provide 1 (some (subscribed .canceled (some 120))),
    .ask 1 1 (some familyProduct),
    .write 1 plainly]

/-- The second then writes the plan as it was: active, and not ended. -/
theorem overtaken_goes_back :
    ¬ ∀ grace pooled moves move id source,
        ((families grace).run (World.start (.created pooled)) moves).sources
            id = some source →
          ∃ later, ((families grace).step ((families grace).run
              (World.start (.created pooled)) moves) move).sources id =
                some later ∧
            source.Le later := by
  intro all
  have before : ((families 7).run (World.start (.created true))
      overtaking).sources 1 =
        some { standing := 1, period := 1, product := 1 } := by
    decide
  obtain ⟨later, is, le⟩ := all 7 true overtaking (.write 2 plainly) 1 _ before
  have after : ((families 7).step ((families 7).run
      (World.start (.created true)) overtaking) (.write 2 plainly)).sources
        1 = some { standing := 0, period := 0, product := 0 } := by
    decide
  rw [after] at is
  cases is
  exact absurd le.1 (by decide)

/-- Whether a reading is in turn, computed. -/
def World.turns
    {σ π : Type}
    (world : World σ π)
    (flight : Flight π)
    (stamp : ReadingStamp) : Bool :=
  world.flights.entries.all fun entry =>
    !entry.2.written || !entry.2.stamp.any (· < stamp) ||
      entry.2.seen.entries.all fun seen =>
        (flight.seen.get? seen.1).all fun mine => seen.2.answer ≤ mine.answer

/-- A write is in turn where that computes. -/
theorem inTurn_of_turns
    {σ π ε ω : Type}
    {mirror : Mirror σ π ε ω}
    {world : World σ π}
    {number : Nat}
    {extra : ε}
    (sure : Flight π → Bool)
    (safe : ∀ flight, sure flight = true → mirror.sure world.store flight)
    (turns : (world.flights.get? number).all (fun flight =>
      flight.stamp.all fun stamp =>
        world.turns flight stamp && sure flight) = true) :
    mirror.InTurn world (.write number extra) := by
  intro flight stamp found stamped _ _
  rw [found, Option.all_some, stamped, Option.all_some,
    Bool.and_eq_true] at turns
  refine ⟨?_, safe flight turns.2⟩
  intro other its earlier id seen mine there written itsStamp before has own
  have entry := all_eq_true.mp turns.1 (other, its)
    (mem_entries.mpr there)
  simp only [written, itsStamp, Option.any_some, before, Bool.not_true,
    decide_true, Bool.false_or] at entry
  have both := all_eq_true.mp entry (id, seen)
    (mem_entries.mpr has)
  rw [own, Option.all_some] at both
  exact of_decide_eq_true both

/-- Whether a reading is of every plan a person has that has not ended. -/
def Person.readBy (person : Person) (flight : Flight Nat) : Bool :=
  person.plans.entries.all fun entry =>
    entry.2.endedAt.isSome || (flight.seen.get? entry.1).any fun seen =>
      seen.held.isNone || seen.product.isSome

theorem readsAll_of_readBy
    {person : Person}
    {flight : Flight Nat}
    (readBy : person.readBy flight = true) :
    ReadsAll person flight := by
  intro id row found ended
  have entry := all_eq_true.mp readBy (id, row)
    (mem_entries.mpr found)
  rw [ended, Option.isSome_none, Bool.false_or, Option.any_eq_true] at entry
  obtain ⟨seen, there, either⟩ := entry
  refine ⟨seen, there, fun held => ?_⟩
  rw [Bool.or_eq_true, Option.isNone_iff_eq_none] at either
  rcases either with none_ | product
  · rw [none_] at held
    cases held
  · exact product

/-- Two reconciles, each reading and writing in the order of its number. -/
def readInTurn : List (Move Priced Extra Op) :=
  [.provide 1 (some (subscribed .active none)),
    .reconcile 1 true,
    .reconcile 2 true,
    .list 1,
    .list 2,
    .ask 1 1 (some familyProduct),
    .provide 1 (some (subscribed .canceled (some 120))),
    .ask 2 1 (some familyProduct),
    .write 1 plainly]

/-- A person's plan, read as it was bought and, by the next, as it ended. -/
def ownReadInTurn : List (Move Nat Time Unit) :=
  [.provide 1 (some (subscribed .active none)),
    .reconcile 1 true,
    .list 1,
    .ask 1 1 (some 200),
    .reconcile 2 true,
    .write 1 101,
    .provide 1 (some (subscribed .canceled (some 120))),
    .list 2,
    .ask 2 1 (some 200)]

/-- The rows of both tell of the answer the first write had, or a later one. -/
theorem answers_only_forward_alone :
    (∃ later, ((families 7).step ((families 7).run
        (World.start (.created true)) readInTurn)
          (.write 2 plainly)).sources 1 = some later ∧
      Source.Le { standing := 0, period := 0, product := 0 } later) ∧
    (∃ later, ((people 7).step ((people 7).run (World.start .created)
        ownReadInTurn) (.write 2 103)).sources 1 = some later ∧
      Source.Le { standing := 0, period := 0, product := 0 } later) ∧
    Entitled ((people 7).step ((people 7).run (World.start .created)
      ownReadInTurn) (.write 2 103)).store := by
  have turn : Runs.Each (families 7).step (families 7).InTurn
      (World.start (.created true)) (readInTurn ++ [.write 2 plainly]) := by
    refine ⟨trivial, trivial, trivial, trivial, trivial, trivial, trivial,
      trivial, ?_, ?_, trivial⟩
    · exact inTurn_of_turns (fun _ => true) (fun _ _ => trivial)
        (by decide)
    · exact inTurn_of_turns (fun _ => true) (fun _ _ => trivial)
        (by decide)
  have ownTurn : Runs.Each (people 7).step (people 7).InTurn
      (World.start .created) (ownReadInTurn ++ [.write 2 103]) := by
    refine ⟨trivial, trivial, trivial, trivial, trivial, ?_, trivial, trivial,
      trivial, ?_, trivial⟩
    · exact inTurn_of_turns (Person.readBy _) (fun _ => readsAll_of_readBy)
        (by decide)
    · exact inTurn_of_turns (Person.readBy _) (fun _ => readsAll_of_readBy)
        (by decide)
  obtain ⟨⟨_, forward, _⟩, _, ownForward, _, entitled⟩ :=
    answers_only_forward rfl rfl turn rfl rfl ownTurn
  exact ⟨forward 1 _ (by decide), ownForward 1 _ (by decide), entitled⟩

end Overtaken

end Billing

end HushOS
