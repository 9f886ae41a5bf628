import HushOS.Billing.Plans

namespace HushOS

open Toolkit List OrderedMap

namespace Billing

/-!
# Readings under way

The provider, which changes of itself and answers for one plan at a time, and
the readings of it: each draws its number and asks of plans when its code does,
in any overlap with the others, and writes what it was answered to a mirror.

Every answer is kept in the order given.  Beside the mirror stands which answer
each part of a row was written from; no code reads that.
-/

/-- A plan as the provider holds it. -/
structure Subscription where
  productId : String
  status : Status
  units : Option Nat
  currentPeriodStart : Time
  currentPeriodEnd : Time
  endedAt : Option Time
  deriving DecidableEq

/-- An answer the provider gave for a plan: as it stood, or that it has none. -/
structure Answer where
  id : PlanId
  held : Option Subscription
  deriving DecidableEq

/-- A plan as a reading has it: the answer, and its product where it reads. -/
structure Seen (π : Type) where
  answer : Nat
  held : Option Subscription
  product : Option π

/-- A reading under way or written. -/
structure Flight (π : Type) where
  /-- The plan a change is of; a whole reconcile has none. -/
  plan : Option PlanId
  stamp : Option ReadingStamp
  /-- Whether the provider's state of the customer was there. -/
  known : Bool
  /-- The unended plans the mirror held when it was listed. -/
  mirrored : Option (List PlanId)
  seen : OrderedMap PlanId (Seen π)
  written : Bool

/-- The answers the parts of a plan's row were written from. -/
structure Source where
  /-- Its status and end. -/
  standing : Nat
  period : Nat
  /-- Its product and units. -/
  product : Nat
  deriving DecidableEq

/-- The provider, the readings, and the mirror. -/
structure World (σ π : Type) where
  subscriptions : OrderedMap PlanId Subscription
  answers : List Answer
  /-- The last number drawn of `billing_reading_seq`. -/
  drawn : ReadingStamp
  flights : OrderedMap Nat (Flight π)
  store : σ
  sources : PlanId → Option Source

/-- How readings go about a mirror, and what they write to it. -/
structure Mirror (σ π ε ω : Type) where
  /-- Whether a reconcile goes on to list the mirror. -/
  lists : σ → Flight π → Bool
  /-- The plans the mirror holds as unended. -/
  unended : σ → List PlanId
  /-- Whether a change may be made of a plan. -/
  changes : σ → PlanId → Bool
  /-- Whether a reading asks of a plan. -/
  asks : Flight π → PlanId → Bool
  /-- Whether no newer mark stands against a reading. -/
  current : σ → Flight π → ReadingStamp → Bool
  /-- What else its write is safe on. -/
  sure : σ → Flight π → Prop
  write : σ → Flight π → ReadingStamp → ε → Outcome × σ
  /-- The answers a plan's row has after a reading wrote. -/
  source : σ → Flight π → PlanId → Option Source → Option Source
  /-- The mirror's other writes. -/
  other : σ → ω → σ

/-- A step of the provider, a reading or the mirror. -/
inductive Move (π ε ω : Type) where
  /-- A plan changes at the provider. -/
  | provide (id : PlanId) (held : Option Subscription)
  /-- A reconcile draws its number, and reads the customer's state. -/
  | reconcile (flight : Nat) (known : Bool)
  /-- A reconcile lists what the mirror holds. -/
  | list (flight : Nat)
  | change (flight : Nat) (id : PlanId)
  /-- A reading asks of a plan, and of its product. -/
  | ask (flight : Nat) (id : PlanId) (product : Option π)
  /-- A change draws its number. -/
  | draw (flight : Nat)
  | write (flight : Nat) (extra : ε)
  | other (write : ω)

/-- Whether a reading has all it writes. -/
def Flight.ready {π : Type} (flight : Flight π) : Bool :=
  match flight.plan with
  | none =>
    !flight.written &&
      flight.mirrored.any fun ids => ids.all flight.seen.has
  | some id =>
    (flight.seen.get? id).any fun seen => seen.held.isSome

section Steps

variable {σ π ε ω : Type}

/-- A reading asks of a plan, and has the answer. -/
def World.ask
    (world : World σ π)
    (number : Nat)
    (flight : Flight π)
    (id : PlanId)
    (product : Option π) : World σ π :=
  let held := world.subscriptions.get? id
  { world with
    answers := world.answers ++ [{ id := id, held := held }]
    flights := world.flights.set number
      { flight with
        seen := flight.seen.set id
          { answer := world.answers.length
            held := held
            product := product } } }

/-- A reading has written, or gives way. -/
def Mirror.land
    (mirror : Mirror σ π ε ω)
    (world : World σ π)
    (number : Nat)
    (flight : Flight π)
    (written : Outcome × σ) : World σ π :=
  match written with
  | (.applied, store) =>
    { world with
      flights := world.flights.set number { flight with written := true }
      store := store
      sources := fun id =>
        mirror.source world.store flight id (world.sources id) }
  | (_, store) =>
    { world with
      flights :=
        if flight.plan.isNone then world.flights.erase number
        else world.flights
      store := store }

/-- The world after a step. -/
def Mirror.step
    (mirror : Mirror σ π ε ω)
    (world : World σ π) : Move π ε ω → World σ π
  | .provide id held =>
    { world with
      subscriptions :=
        match held with
        | none => world.subscriptions.erase id
        | some subscription => world.subscriptions.set id subscription }
  | .reconcile number known =>
    if world.flights.has number then
      world
    else
      { world with
        drawn := world.drawn + 1
        flights := world.flights.set number
          { plan := none
            stamp := some (world.drawn + 1)
            known := known
            mirrored := none
            seen := .empty
            written := false } }
  | .list number =>
    match world.flights.get? number with
    | none => world
    | some flight =>
      if flight.plan.isNone && flight.mirrored.isNone &&
          mirror.lists world.store flight then
        { world with
          flights := world.flights.set number
            { flight with
              mirrored := some (mirror.unended world.store) } }
      else
        world
  | .change number id =>
    if world.flights.has number || !mirror.changes world.store id then
      world
    else
      { world with
        flights := world.flights.set number
          { plan := some id
            stamp := none
            known := false
            mirrored := none
            seen := .empty
            written := false } }
  | .ask number id product =>
    match world.flights.get? number with
    | none => world
    | some flight =>
      if mirror.asks flight id && !flight.seen.has id then
        world.ask number flight id product
      else
        world
  | .draw number =>
    match world.flights.get? number with
    | none => world
    | some flight =>
      if flight.stamp.isNone then
        { world with
          drawn := world.drawn + 1
          flights := world.flights.set number
            { flight with stamp := some (world.drawn + 1) } }
      else
        world
  | .write number extra =>
    match world.flights.get? number with
    | none => world
    | some flight =>
      match flight.stamp with
      | none => world
      | some stamp =>
        if flight.ready then
          mirror.land world number flight
            (mirror.write world.store flight stamp extra)
        else
          world
  | .other write =>
    { world with store := mirror.other world.store write }

/-- The world after a run of steps. -/
def Mirror.run
    (mirror : Mirror σ π ε ω)
    (world : World σ π)
    (moves : List (Move π ε ω)) : World σ π :=
  Runs.run mirror.step world moves

/-- A world before any reading. -/
def World.start (store : σ) : World σ π where
  subscriptions := .empty
  answers := []
  drawn := 0
  flights := .empty
  store := store
  sources := fun _ => none

/--
No reading already written and numbered before this one had a later answer of a
plan this one has an answer of.
-/
def InTurn
    (world : World σ π)
    (flight : Flight π)
    (stamp : ReadingStamp) : Prop :=
  ∀ number other earlier id seen mine,
    world.flights.get? number = some other →
      other.written = true →
        other.stamp = some earlier →
          earlier < stamp →
            other.seen.get? id = some seen →
              flight.seen.get? id = some mine →
                seen.answer ≤ mine.answer

/-- A reading not behind its mirror's marks writes in turn. -/
def Mirror.InTurn
    (mirror : Mirror σ π ε ω)
    (world : World σ π) : Move π ε ω → Prop
  | .write number _ =>
    ∀ flight stamp, world.flights.get? number = some flight →
      flight.stamp = some stamp →
        flight.ready = true →
          mirror.current world.store flight stamp = true →
            Billing.InTurn world flight stamp ∧
              mirror.sure world.store flight
  | _ => True

/-- What the readings of a world have was answered, and numbered once. -/
structure Logged (world : World σ π) : Prop where
  /-- What a reading has of a plan the provider answered. -/
  answered : ∀ number flight id seen,
    world.flights.get? number = some flight →
      flight.seen.get? id = some seen →
        world.answers[seen.answer]? = some { id := id, held := seen.held }
  /-- Numbers are drawn in turn. -/
  drawn : ∀ number flight stamp,
    world.flights.get? number = some flight →
      flight.stamp = some stamp → stamp ≤ world.drawn
  /-- No two readings have one number. -/
  once : ∀ first second flight other stamp,
    world.flights.get? first = some flight →
      world.flights.get? second = some other →
        flight.stamp = some stamp → other.stamp = some stamp → first = second

/-- Readings written stay, and say what they said. -/
def Stays (world next : World σ π) : Prop :=
  world.answers <+: next.answers ∧
    ∀ number flight, world.flights.get? number = some flight →
      flight.written = true →
        ∃ after, next.flights.get? number = some after ∧
          after.written = true ∧ after.plan = flight.plan ∧
          after.stamp = flight.stamp ∧
          ∀ id seen, flight.seen.get? id = some seen →
            after.seen.get? id = some seen

namespace Logged

variable {world : World σ π}

theorem start (store : σ) : Logged (World.start (π := π) store) where
  answered := by
    intro number flight id seen found
    cases found
  drawn := by
    intro number flight stamp found
    cases found
  once := by
    intro first second flight other stamp found
    cases found

/-- Replacing a flight by one with the same readings keeps the log. -/
theorem replace
    (logged : Logged world)
    {number : Nat}
    {flight after : Flight π}
    (found : world.flights.get? number = some flight)
    {next : World σ π}
    (answers : next.answers = world.answers)
    (drawn : next.drawn = world.drawn)
    (flights : next.flights = world.flights.set number after)
    (stamp : after.stamp = flight.stamp)
    (seen : after.seen = flight.seen) :
    Logged next := by
  have earlier : ∀ other row, next.flights.get? other = some row →
      ∃ before, world.flights.get? other = some before ∧
        row.stamp = before.stamp ∧ row.seen = before.seen := by
    intro other row there
    rw [flights, get?_set] at there
    split at there
    · next same =>
        cases there
        exact ⟨flight, same ▸ found, stamp, seen⟩
    · exact ⟨row, there, rfl, rfl⟩
  refine { answered := ?_, drawn := ?_, once := ?_ }
  · intro other row id mine there has
    obtain ⟨before, was, _, sameSeen⟩ := earlier other row there
    rw [answers]
    exact logged.answered other before id mine was (sameSeen ▸ has)
  · intro other row at_ there numbered
    obtain ⟨before, was, sameStamp, _⟩ := earlier other row there
    rw [drawn]
    exact logged.drawn other before at_ was (sameStamp ▸ numbered)
  · intro first second row other at_ there too numbered also
    obtain ⟨before, was, sameStamp, _⟩ := earlier first row there
    obtain ⟨beside, wasToo, sameToo, _⟩ := earlier second other too
    exact logged.once first second before beside at_ was wasToo
      (sameStamp ▸ numbered) (sameToo ▸ also)

/-- Drawing a number for a flight keeps the log. -/
theorem number
    (logged : Logged world)
    {number : Nat}
    {after : Flight π}
    {next : World σ π}
    (answers : next.answers = world.answers)
    (drawn : next.drawn = world.drawn + 1)
    (flights : next.flights = world.flights.set number after)
    (stamp : after.stamp = some (world.drawn + 1))
    (answered : ∀ id seen, after.seen.get? id = some seen →
      world.answers[seen.answer]? = some { id := id, held := seen.held }) :
    Logged next := by
  refine { answered := ?_, drawn := ?_, once := ?_ }
  · intro other row id mine there has
    rw [flights, get?_set] at there
    rw [answers]
    split at there
    · cases there
      exact answered id mine has
    · exact logged.answered other row id mine there has
  · intro other row at_ there numbered
    rw [flights, get?_set] at there
    rw [drawn]
    split at there
    · cases there
      rw [stamp] at numbered
      exact Nat.le_of_eq (Option.some.inj numbered).symm
    · exact Nat.le_succ_of_le (logged.drawn other row at_ there numbered)
  · intro first second row other at_ there too numbered also
    rw [flights, get?_set] at there too
    split at there
    · next isFirst =>
        cases there
        rw [stamp] at numbered
        cases numbered
        split at too
        · next isSecond =>
            exact isFirst.trans isSecond.symm
        · have most := logged.drawn second other _ too also
          exact absurd most (Nat.not_succ_le_self _)
    · split at too
      · cases too
        rw [stamp] at also
        cases also
        have most := logged.drawn first row _ there numbered
        exact absurd most (Nat.not_succ_le_self _)
      · exact logged.once first second row other at_ there too numbered also

/-- Starting a flight that has read nothing keeps the log. -/
theorem begin
    (logged : Logged world)
    {number : Nat}
    {after : Flight π}
    (stamp : after.stamp = none)
    (seen : after.seen = .empty)
    {next : World σ π}
    (answers : next.answers = world.answers)
    (drawn : next.drawn = world.drawn)
    (flights : next.flights = world.flights.set number after) :
    Logged next := by
  refine { answered := ?_, drawn := ?_, once := ?_ }
  · intro other row id mine there has
    rw [flights, get?_set] at there
    rw [answers]
    split at there
    · cases there
      rw [seen] at has
      cases has
    · exact logged.answered other row id mine there has
  · intro other row at_ there numbered
    rw [flights, get?_set] at there
    rw [drawn]
    split at there
    · cases there
      rw [stamp] at numbered
      cases numbered
    · exact logged.drawn other row at_ there numbered
  · intro first second row other at_ there too numbered also
    rw [flights, get?_set] at there too
    split at there
    · cases there
      rw [stamp] at numbered
      cases numbered
    · split at too
      · cases too
        rw [stamp] at also
        cases also
      · exact logged.once first second row other at_ there too numbered also

/-- Asking for one more plan keeps the log. -/
theorem ask
    (logged : Logged world)
    {number : Nat}
    {flight : Flight π}
    (found : world.flights.get? number = some flight)
    (id : PlanId)
    (product : Option π) :
    Logged (world.ask number flight id product) := by
  have logs : ∀ (index : Nat) answer, world.answers[index]? = some answer →
      (world.ask number flight id product).answers[index]? = some answer := by
    intro index answer there
    have within := (List.getElem?_eq_some_iff.mp there).1
    exact (getElem?_append_left within).trans there
  refine { answered := ?_, drawn := ?_, once := ?_ }
  · intro other row plan mine there has
    rw [World.ask, get?_set] at there
    split at there
    · cases there
      dsimp only at has
      rw [get?_set] at has
      split at has
      · next same =>
          cases has
          rw [same]
          exact getElem?_concat_length
      · exact logs _ _ (logged.answered number flight plan mine found has)
    · exact logs _ _ (logged.answered other row plan mine there has)
  · intro other row at_ there numbered
    rw [World.ask, get?_set] at there
    split at there
    · cases there
      exact logged.drawn number flight at_ found numbered
    · exact logged.drawn other row at_ there numbered
  · intro first second row other at_ there too numbered also
    rw [World.ask, get?_set] at there too
    split at there <;> split at too
    · next isFirst isSecond =>
        exact isFirst.trans isSecond.symm
    · next isFirst isSecond =>
        cases there
        rw [isFirst]
        exact logged.once number second flight other at_ found too numbered
          also
    · next isFirst isSecond =>
        cases too
        rw [isSecond]
        exact logged.once first number row flight at_ there found numbered
          also
    · exact logged.once first second row other at_ there too numbered also

theorem erase
    (logged : Logged world)
    {next : World σ π}
    (answers : next.answers = world.answers)
    (drawn : next.drawn = world.drawn)
    (flights : ∀ number flight, next.flights.get? number = some flight →
      world.flights.get? number = some flight) :
    Logged next := by
  refine { answered := ?_, drawn := ?_, once := ?_ }
  · intro other row id mine there has
    rw [answers]
    exact logged.answered other row id mine (flights _ _ there) has
  · intro other row at_ there numbered
    rw [drawn]
    exact logged.drawn other row at_ (flights _ _ there) numbered
  · intro first second row other at_ there too numbered also
    exact logged.once first second row other at_ (flights _ _ there)
      (flights _ _ too) numbered also

end Logged

/-- A write in its turn carries answers no older than earlier writes. -/
theorem Logged.le_of_inTurn
    {world : World σ π}
    (logged : Logged world)
    {number other : Nat}
    {flight earlier : Flight π}
    {stamp at_ : ReadingStamp}
    (found : world.flights.get? number = some flight)
    (stamped : flight.stamp = some stamp)
    (turn : InTurn world flight stamp)
    (beside : world.flights.get? other = some earlier)
    (written : earlier.written = true)
    (numbered : earlier.stamp = some at_)
    (before : at_ ≤ stamp)
    {id : PlanId}
    {seen mine : Seen π}
    (had : earlier.seen.get? id = some seen)
    (has : flight.seen.get? id = some mine) :
    seen.answer ≤ mine.answer := by
  rcases Nat.lt_or_eq_of_le before with less | same
  · exact turn other earlier at_ id seen mine beside written numbered less had
      has
  · subst same
    have one := logged.once other number earlier flight at_ beside found
      numbered stamped
    subst one
    rw [beside] at found
    cases found
    rw [had] at has
    cases has
    exact Nat.le_refl _

namespace Stays

variable {world next : World σ π}

theorem of_same
    (answers : next.answers = world.answers)
    (flights : next.flights = world.flights) :
    Stays world next := by
  refine ⟨answers ▸ prefix_refl _, fun number flight found written => ?_⟩
  exact ⟨flight, flights ▸ found, written, rfl, rfl, fun _ _ has => has⟩

theorem of_set
    {number : Nat}
    {after : Flight π}
    (answers : world.answers <+: next.answers)
    (flights : next.flights = world.flights.set number after)
    (kept : ∀ flight, world.flights.get? number = some flight →
      flight.written = true →
        after.written = true ∧ after.plan = flight.plan ∧
          after.stamp = flight.stamp ∧
          ∀ id seen, flight.seen.get? id = some seen →
            after.seen.get? id = some seen) :
    Stays world next := by
  refine ⟨answers, fun other flight found written => ?_⟩
  rw [flights, get?_set]
  split
  · next same =>
      subst same
      exact ⟨after, rfl, kept flight found written⟩
  · exact ⟨flight, found, written, rfl, rfl, fun _ _ has => has⟩

end Stays

/-- A reading written has its number. -/
def Numbered (world : World σ π) : Prop :=
  ∀ number flight, world.flights.get? number = some flight →
    flight.written = true → flight.stamp.isSome = true

/-- What a step does to the mirror. -/
inductive Mirror.Change
    (mirror : Mirror σ π ε ω)
    (world next : World σ π) : Move π ε ω → Prop where
  /-- Nothing. -/
  | quiet
      {move : Move π ε ω}
      (store : next.store = world.store)
      (sources : next.sources = world.sources) :
      mirror.Change world next move
  /-- A reading writes it. -/
  | applied
      {number : Nat}
      {extra : ε}
      {flight : Flight π}
      {stamp : ReadingStamp}
      (found : world.flights.get? number = some flight)
      (stamped : flight.stamp = some stamp)
      (ready : flight.ready = true)
      (outcome : (mirror.write world.store flight stamp extra).1 = .applied)
      (store : next.store = (mirror.write world.store flight stamp extra).2)
      (sources : next.sources = fun id =>
        mirror.source world.store flight id (world.sources id))
      (flights : next.flights =
        world.flights.set number { flight with written := true }) :
      mirror.Change world next (.write number extra)
  /-- A reading gives way. -/
  | refused
      {number : Nat}
      {extra : ε}
      {flight : Flight π}
      {stamp : ReadingStamp}
      (found : world.flights.get? number = some flight)
      (stamped : flight.stamp = some stamp)
      (ready : flight.ready = true)
      (outcome : (mirror.write world.store flight stamp extra).1 ≠ .applied)
      (store : next.store = (mirror.write world.store flight stamp extra).2)
      (sources : next.sources = world.sources) :
      mirror.Change world next (.write number extra)
  /-- Another write. -/
  | other
      {write : ω}
      (store : next.store = mirror.other world.store write)
      (sources : next.sources = world.sources) :
      mirror.Change world next (.other write)

variable {mirror : Mirror σ π ε ω} {world : World σ π}

/-- A landing write is applied, or leaves the store as it was. -/
theorem Mirror.land_cases
    (mirror : Mirror σ π ε ω)
    (world : World σ π)
    (number : Nat)
    (flight : Flight π)
    (written : Outcome × σ) :
    (written.1 = .applied ∧
        mirror.land world number flight written =
          { world with
            flights :=
              world.flights.set number { flight with written := true }
            store := written.2
            sources := fun id =>
              mirror.source world.store flight id (world.sources id) }) ∨
      (written.1 ≠ .applied ∧
        mirror.land world number flight written =
          { world with
            flights :=
              if flight.plan.isNone then world.flights.erase number
              else world.flights
            store := written.2 }) := by
  obtain ⟨outcome, store⟩ := written
  cases outcome with
  | applied =>
    exact .inl ⟨rfl, rfl⟩
  | stale =>
    exact .inr ⟨nofun, rfl⟩
  | rerun =>
    exact .inr ⟨nofun, rfl⟩
  | gone =>
    exact .inr ⟨nofun, rfl⟩

/-- Every move makes one of the changes listed for it. -/
theorem Mirror.change_step
    (mirror : Mirror σ π ε ω)
    (world : World σ π)
    (move : Move π ε ω) :
    mirror.Change world (mirror.step world move) move := by
  cases move with
  | provide id held =>
    exact .quiet rfl rfl
  | reconcile number known =>
    dsimp only [step]
    split <;> exact .quiet rfl rfl
  | list number =>
    dsimp only [step]
    split
    · exact .quiet rfl rfl
    · split <;> exact .quiet rfl rfl
  | change number id =>
    dsimp only [step]
    split <;> exact .quiet rfl rfl
  | ask number id product =>
    dsimp only [step]
    split
    · exact .quiet rfl rfl
    · split <;> exact .quiet rfl rfl
  | draw number =>
    dsimp only [step]
    split
    · exact .quiet rfl rfl
    · split <;> exact .quiet rfl rfl
  | write number extra =>
    dsimp only [step]
    split
    · exact .quiet rfl rfl
    · next flight found =>
        split
        · exact .quiet rfl rfl
        · next stamp stamped =>
            split
            · next ready =>
                rcases mirror.land_cases world number flight
                    (mirror.write world.store flight stamp extra) with
                  ⟨outcome, same⟩ | ⟨outcome, same⟩ <;> rw [same]
                · exact .applied found stamped ready outcome rfl rfl rfl
                · exact .refused found stamped ready outcome rfl rfl
            · exact .quiet rfl rfl
  | other write =>
    exact .other rfl rfl

/-- A write changes nothing, or leaves what its flight writes. -/
theorem Mirror.write_cases
    {number : Nat}
    {flight : Flight π}
    (found : world.flights.get? number = some flight)
    (extra : ε) :
    let next := mirror.step world (.write number extra)
    (next.store = world.store ∧ next.sources = world.sources) ∨
      ∃ stamp, flight.stamp = some stamp ∧ flight.ready = true ∧
        next.store = (mirror.write world.store flight stamp extra).2 ∧
        ((mirror.write world.store flight stamp extra).1 = .applied ∨
          next.sources = world.sources) := by
  have changed := mirror.change_step world (.write number extra)
  cases changed with
  | quiet store sources =>
    exact .inl ⟨store, sources⟩
  | applied there stamped ready outcome store =>
    rw [found] at there
    cases there
    exact .inr ⟨_, stamped, ready, store, .inl outcome⟩
  | refused there stamped ready _ store sources =>
    rw [found] at there
    cases there
    exact .inr ⟨_, stamped, ready, store, .inr sources⟩

/-- Every move keeps the log of answers. -/
theorem Logged.step
    (logged : Logged world)
    (move : Move π ε ω) :
    Logged (mirror.step world move) := by
  cases move with
  | provide id held =>
    exact logged.erase rfl rfl fun _ _ found => found
  | reconcile number known =>
    dsimp only [Mirror.step]
    split
    · exact logged
    · exact logged.number rfl rfl rfl rfl fun _ _ has => by cases has
  | list number =>
    dsimp only [Mirror.step]
    split
    · exact logged
    · next flight found =>
        split
        · exact logged.replace found rfl rfl rfl rfl rfl
        · exact logged
  | change number id =>
    dsimp only [Mirror.step]
    split
    · exact logged
    · exact logged.begin rfl rfl rfl rfl rfl
  | ask number id product =>
    dsimp only [Mirror.step]
    split
    · exact logged
    · next flight found =>
        split
        · exact logged.ask found id product
        · exact logged
  | draw number =>
    dsimp only [Mirror.step]
    split
    · exact logged
    · next flight found =>
        split
        · exact logged.number rfl rfl rfl rfl
            (logged.answered number flight · · found)
        · exact logged
  | write number extra =>
    dsimp only [Mirror.step]
    split
    · exact logged
    · next flight found =>
        split
        · exact logged
        · next stamp stamped =>
            split
            · rcases mirror.land_cases world number flight
                  (mirror.write world.store flight stamp extra) with
                ⟨_, same⟩ | ⟨_, same⟩ <;> rw [same]
              · exact logged.replace found rfl rfl rfl rfl rfl
              · refine logged.erase rfl rfl fun other row there => ?_
                dsimp only at there
                split at there
                · rw [get?_erase] at there
                  split at there
                  · cases there
                  · exact there
                · exact there
            · exact logged
  | other write =>
    exact logged.erase rfl rfl fun _ _ found => found

/-- Every move keeps a number on each reading written. -/
theorem Numbered.step
    (numbered : Numbered world)
    (move : Move π ε ω) :
    Numbered (mirror.step world move) := by
  have set_ : ∀ number (after : Flight π) (next : World σ π),
      next.flights = world.flights.set number after →
        (after.written = true → after.stamp.isSome = true) →
          Numbered next := by
    intro number after next flights holds other flight found written
    rw [flights, get?_set] at found
    split at found
    · cases found
      exact holds written
    · exact numbered other flight found written
  cases move with
  | provide id held =>
    exact numbered
  | reconcile number known =>
    dsimp only [Mirror.step]
    split
    · exact numbered
    · exact set_ number _ _ rfl fun written => by cases written
  | list number =>
    dsimp only [Mirror.step]
    split
    · exact numbered
    · next flight found =>
        split
        · exact set_ number _ _ rfl (numbered number flight found)
        · exact numbered
  | change number id =>
    dsimp only [Mirror.step]
    split
    · exact numbered
    · exact set_ number _ _ rfl fun written => by cases written
  | ask number id product =>
    dsimp only [Mirror.step]
    split
    · exact numbered
    · next flight found =>
        split
        · exact set_ number _ _ rfl (numbered number flight found)
        · exact numbered
  | draw number =>
    dsimp only [Mirror.step]
    split
    · exact numbered
    · next flight found =>
        split
        · exact set_ number _ _ rfl fun _ => rfl
        · exact numbered
  | write number extra =>
    dsimp only [Mirror.step]
    split
    · exact numbered
    · next flight found =>
        split
        · exact numbered
        · next stamp stamped =>
            split
            · rcases mirror.land_cases world number flight
                  (mirror.write world.store flight stamp extra) with
                ⟨_, same⟩ | ⟨_, same⟩ <;> rw [same]
              · refine set_ number _ _ rfl fun _ => ?_
                exact Option.isSome_iff_exists.mpr ⟨stamp, stamped⟩
              · intro other row there written
                dsimp only at there
                split at there
                · rw [get?_erase] at there
                  split at there
                  · cases there
                  · exact numbered other row there written
                · exact numbered other row there written
            · exact numbered
  | other write =>
    exact numbered

/-- Every move keeps what was answered and written. -/
theorem stays_step
    (mirror : Mirror σ π ε ω)
    (numbered : Numbered world)
    (move : Move π ε ω) :
    Stays world (mirror.step world move) := by
  have same : Stays world world := .of_same rfl rfl
  cases move with
  | provide id held =>
    exact .of_same rfl rfl
  | reconcile number known =>
    dsimp only [Mirror.step]
    split
    · exact same
    · next fresh =>
        refine .of_set (prefix_refl _) rfl fun flight found _ => ?_
        exact absurd (has_iff.mpr
          (OrderedMap.mem_keys.mpr ⟨flight, found⟩)) fresh
  | list number =>
    dsimp only [Mirror.step]
    split
    · exact same
    · next flight found =>
        split
        · refine .of_set (prefix_refl _) rfl fun row there written => ?_
          rw [found] at there
          cases there
          exact ⟨written, rfl, rfl, fun _ _ has => has⟩
        · exact same
  | change number id =>
    dsimp only [Mirror.step]
    split
    · exact same
    · next fresh =>
        refine .of_set (prefix_refl _) rfl fun flight found _ => ?_
        exact absurd (has_iff.mpr
          (OrderedMap.mem_keys.mpr ⟨flight, found⟩))
          fun has => fresh (Bool.or_eq_true_iff.mpr (.inl has))
  | ask number id product =>
    dsimp only [Mirror.step]
    split
    · exact same
    · next flight found =>
        split
        · next asks =>
            refine .of_set (prefix_append _ _) rfl
              fun row there written => ?_
            rw [found] at there
            cases there
            refine ⟨written, rfl, rfl, fun plan seen has => ?_⟩
            dsimp only
            rw [get?_set, if_neg]
            · exact has
            · intro isId
              subst isId
              have absent := (Bool.and_eq_true_iff.mp asks).2
              rw [Bool.not_eq_true', Bool.eq_false_iff] at absent
              exact absent (has_iff.mpr
                (OrderedMap.mem_keys.mpr ⟨seen, has⟩))
        · exact same
  | draw number =>
    dsimp only [Mirror.step]
    split
    · exact same
    · next flight found =>
        split
        · next open_ =>
            refine .of_set (prefix_refl _) rfl
              fun row there written => ?_
            rw [found] at there
            cases there
            have isSome := numbered number flight found written
            rw [Option.isNone_iff_eq_none.mp open_] at isSome
            cases isSome
        · exact same
  | write number extra =>
    dsimp only [Mirror.step]
    split
    · exact same
    · next flight found =>
        split
        · exact same
        · next stamp stamped =>
            split
            · next ready =>
                rcases mirror.land_cases world number flight
                    (mirror.write world.store flight stamp extra) with
                  ⟨_, landed⟩ | ⟨_, landed⟩ <;> rw [landed]
                · refine .of_set (prefix_refl _) rfl
                    fun row there _ => ?_
                  rw [found] at there
                  cases there
                  exact ⟨rfl, rfl, rfl, fun _ _ has => has⟩
                · refine ⟨prefix_refl _, fun other row there done => ?_⟩
                  refine ⟨row, ?_, done, rfl, rfl, fun _ _ has => has⟩
                  dsimp only
                  split
                  · next whole =>
                      rw [get?_erase, if_neg]
                      · exact there
                      · intro isIt
                        subst isIt
                        rw [found] at there
                        cases there
                        unfold Flight.ready at ready
                        rw [Option.isNone_iff_eq_none.mp whole] at ready
                        dsimp only at ready
                        rw [done] at ready
                        cases ready
                  · exact there
            · exact same
  | other write =>
    exact .of_same rfl rfl

/-- A fact of readings and mirror that everything a step does keeps. -/
structure Mirror.Fitting
    (mirror : Mirror σ π ε ω)
    (good : σ → Prop)
    (fits : σ → Flight π → Prop) : Prop where
  reconcile : ∀ store stamp known, fits store
    { plan := none
      stamp := some stamp
      known := known
      mirrored := none
      seen := .empty
      written := false }
  list : ∀ store flight, good store → flight.plan = none →
    fits store flight → mirror.lists store flight = true →
      fits store { flight with mirrored := some (mirror.unended store) }
  change : ∀ store id, good store → mirror.changes store id = true →
    fits store
      { plan := some id
        stamp := none
        known := false
        mirrored := none
        seen := .empty
        written := false }
  ask : ∀ store flight id seen, fits store flight →
    mirror.asks flight id = true →
      fits store { flight with seen := flight.seen.set id seen }
  draw : ∀ store flight stamp, fits store flight →
    fits store { flight with stamp := some stamp }
  written : ∀ store flight, fits store flight →
    fits store { flight with written := true }
  write : ∀ store flight other stamp extra, fits store flight →
    fits (mirror.write store other stamp extra).2 flight
  other : ∀ store flight write, fits store flight →
    fits (mirror.other store write) flight

/-- Whether a fact holds of every reading. -/
def All (fits : σ → Flight π → Prop) (world : World σ π) : Prop :=
  ∀ number flight, world.flights.get? number = some flight →
    fits world.store flight

theorem All.set
    {fits : σ → Flight π → Prop}
    (all : All fits world)
    {number : Nat}
    {after : Flight π}
    {next : World σ π}
    (flights : next.flights = world.flights.set number after)
    (store : next.store = world.store)
    (holds : fits world.store after) :
    All fits next := by
  intro other flight found
  rw [flights, get?_set] at found
  rw [store]
  split at found
  · cases found
    exact holds
  · exact all other flight found

/-- Flights that fit still fit after every move. -/
theorem Mirror.Fitting.step
    {good : σ → Prop}
    {fits : σ → Flight π → Prop}
    (fitting : mirror.Fitting good fits)
    (isGood : good world.store)
    (all : All fits world)
    (move : Move π ε ω) :
    All fits (mirror.step world move) := by
  cases move with
  | provide id held =>
    exact all
  | reconcile number known =>
    dsimp only [Mirror.step]
    split
    · exact all
    · exact all.set rfl rfl (fitting.reconcile _ _ _)
  | list number =>
    dsimp only [Mirror.step]
    split
    · exact all
    · next flight found =>
        split
        · next may =>
            obtain ⟨open_, lists⟩ := Bool.and_eq_true_iff.mp may
            have whole := (Bool.and_eq_true_iff.mp open_).1
            exact all.set rfl rfl (fitting.list _ _ isGood
              (Option.isNone_iff_eq_none.mp whole) (all number flight found)
              lists)
        · exact all
  | change number id =>
    dsimp only [Mirror.step]
    split
    · exact all
    · next may =>
        have changes : mirror.changes world.store id = true := by
          by_contra not_
          rw [Bool.not_eq_true] at not_
          exact may (Bool.or_eq_true_iff.mpr (.inr (not_ ▸ rfl)))
        exact all.set rfl rfl (fitting.change _ _ isGood changes)
  | ask number id product =>
    dsimp only [Mirror.step]
    split
    · exact all
    · next flight found =>
        split
        · next asks =>
            exact all.set rfl rfl (fitting.ask _ _ _ _
              (all number flight found) (Bool.and_eq_true_iff.mp asks).1)
        · exact all
  | draw number =>
    dsimp only [Mirror.step]
    split
    · exact all
    · next flight found =>
        split
        · exact all.set rfl rfl
            (fitting.draw _ _ _ (all number flight found))
        · exact all
  | write number extra =>
    dsimp only [Mirror.step]
    split
    · exact all
    · next flight found =>
        split
        · exact all
        · next stamp stamped =>
            split
            · have moved : ∀ other row,
                  world.flights.get? other = some row →
                    fits (mirror.write world.store flight stamp extra).2
                      row :=
                fun other row there =>
                  fitting.write _ _ _ _ _ (all other row there)
              rcases mirror.land_cases world number flight
                  (mirror.write world.store flight stamp extra) with
                ⟨_, landed⟩ | ⟨_, landed⟩ <;> rw [landed]
              · intro other row there
                dsimp only at there
                rw [get?_set] at there
                split at there
                · cases there
                  exact fitting.written _ _ (moved number flight found)
                · exact moved other row there
              · intro other row there
                dsimp only at there
                split at there
                · rw [get?_erase] at there
                  split at there
                  · cases there
                  · exact moved other row there
                · exact moved other row there
            · exact all
  | other write =>
    exact fun number flight found =>
      fitting.other _ _ _ (all number flight found)

end Steps

end Billing

end HushOS
