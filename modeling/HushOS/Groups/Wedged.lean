import HushOS.Acceptance.Toy
import HushOS.Groups.Committed

namespace HushOS

open Toolkit List OrderedMap

namespace Groups

/-!
# What a family is never left in, and how it is

Where every account's deletion departs the family first, its memberships are
what its chain says and someone can always sign.  A deletion that listed the
account's groups before an invitation was taken departs from none of those
joined since, and takes the member away all the same.
-/

/-- The server counts a dropped holder as acceptance does. -/
structure CountsDrops (world : World) : Prop where
  same : ∀ (next : ReadRoster) route after drops,
    Follows world.group.head next.val →
    checkAdmission world.group route = .ok () →
    pendingOf world.group (changesOf world.group.head next.val) = [] →
    applyRoster world.group.departures route
        (changesOf world.group.head next.val) world.group =
      .ok (after, drops) →
    drops = dropsHolder world.group.head next.val
  never : ∀ number call, world.attempt (.write number call) ≠
    .error (.invalid "drops-holder")

theorem Kept.countsDrops
    {world : World}
    (kept : Kept world)
    (undissolved : world.group.dissolved = false) :
    CountsDrops world := by
  have standing := kept.standing undissolved
  constructor
  · intro next route after drops follows admission marked applied
    exact (projected_of_checks standing.agrees next.property follows
      admission marked applied).drops_eq
  · intro number call refused
    simp only [World.attempt] at refused
    split at refused
    · next reading found =>
        exact spares_writeChain kept.standing
          (kept.readings number reading found).2 refused
    · cases refused

/--
In every state of an undissolved family, whatever its calls, departures and
deletions, the head's active entries are the active members and the pending
departures, with their roles and what they held, a dropped holder is counted
as acceptance counts it, and someone holds `members` and someone `billing`:
exactly where no account goes that is an active member and whose deletion
never listed the family.
-/
theorem memberships_agree
    {userId digest : String}
    {first : ReadRoster}
    {created : Group}
    (made : createFamily userId first digest = .ok created)
    (moves : List Move) :
    (∀ earlier, earlier <+: moves →
      ((World.start created).run earlier).group.dissolved = false →
        Agrees ((World.start created).run earlier).group ∧
          CountsDrops ((World.start created).run earlier)) ↔
      Runs.Each World.step World.Departs (World.start created) moves := by
  constructor
  · intro agree
    refine Runs.each_iff.mpr fun earlier move begins => ?_
    have before : earlier <+: moves :=
      (prefix_append earlier [move]).trans begins
    cases move with
    | finish number elsewhere =>
      intro gone found here undissolved
      by_contra isActive
      rw [Bool.not_eq_false] at isActive
      obtain ⟨agrees, _⟩ := agree earlier before undissolved
      have deleted : ((World.start created).run
          (earlier ++ [.finish number elsewhere])).group =
            cascade ((World.start created).run earlier).group gone := by
        have attempted : World.attempt ((World.start created).run earlier)
            (.finish number elsewhere) =
              .ok (cascade ((World.start created).run earlier).group
                gone) := by
          simp [World.attempt, found, here, deleteAccount]
        rw [World.run, Runs.run_append]
        rcases group_step ((World.start created).run earlier)
            (.finish number elsewhere) with
          ⟨after, is, same⟩ | ⟨_, is, _⟩
        · rw [attempted, Except.ok.injEq] at is
          rw [is]
          exact same
        · rw [attempted] at is
          cases is
      obtain ⟨after, _⟩ := agree _ begins (by
        rw [deleted]
        exact undissolved)
      rw [deleted] at after
      have listed := (agrees.listed gone).mpr (.inl isActive)
      rcases (after.listed gone).mp listed with still | departed
      · rw [isActive_iff, stateOf, cascade, get?_erase,
          if_pos rfl] at still
        cases still
      · rw [agrees.apart gone departed] at isActive
        cases isActive
    | read number => trivial
    | list number => trivial
    | write number call => trivial
    | succeed number call => trivial
    | putKeySeals number uploader seals => trivial
    | accept other invitationRoles elsewhere => trivial
    | decline holder other => trivial
    | leave other mustDissolve onlyAccepted elsewhere => trivial
    | delete number other => trivial
  · rintro departs earlier ⟨later, rfl⟩ undissolved
    obtain ⟨early, _⟩ := Runs.each_append.mp departs
    have kept := kept_run (kept_createFamily made) early
    exact ⟨(kept.standing undissolved).agrees, kept.countsDrops undissolved⟩

/--
In every state of an undissolved family whose deletions all departed, some
active member holds `members` with a seal of the current key, every seal of
it is to such a member, and each call that makes a holder or replaces the key
stores the holders' seals itself.
-/
theorem someone_can_sign
    {userId digest : String}
    {first : ReadRoster}
    {created : Group}
    (made : createFamily userId first digest = .ok created)
    {moves : List Move}
    {world : World}
    (reached : world = (World.start created).run moves)
    (departs :
      Runs.Each World.step World.Departs (World.start created) moves)
    (undissolved : world.group.dissolved = false) :
    (∃ holder, world.group.holds holder .members = true ∧
      world.group.seals.has (world.group.groupKeyVersion, holder) = true) ∧
    (∀ holder,
      world.group.seals.has (world.group.groupKeyVersion, holder) = true →
        world.group.holds holder .members = true) ∧
    (∀ number call after,
      world.attempt (.write number call) = .ok after →
        Handed world.group after call.succession.isSome call.seals) ∧
    ∀ number call after,
      world.attempt (.succeed number call) = .ok after →
        Handed world.group after true call.seals := by
  subst reached
  have kept := kept_run (kept_createFamily made) departs
  have standing := kept.standing undissolved
  refine ⟨standing.sealed.signer, standing.sealed.holders, ?_, ?_⟩
  · intro number call after written
    simp only [World.attempt] at written
    split at written
    · next reading found =>
        exact (appended_of_writeChain standing
          ((kept.readings number reading found).2 undissolved)
          written).handsOver
    · cases written
  · intro number call after posted
    simp only [World.attempt] at posted
    split at posted
    · next reading found =>
        exact (appended_of_postSuccession standing
          ((kept.readings number reading found).2 undissolved)
          posted).handsOver
    · cases posted

section Overtaken

/-- The founder's entry, with every role of theirs. -/
def founder : RosterMember :=
  toyEntry sampleOwner 1 .active [.billing, .members] 1

/-- The founder alone. -/
def alone : ReadRoster where
  val := toyRoster 1 [founder] []
  property := by
    refine toyRoster_valid (by decide) (by decide) (by simp) (by decide) ?_
      (by decide) (by decide) (by simp) (by decide)
    intro entry member
    rw [mem_singleton] at member
    subst member
    exact toyEntry_valid (by decide) (by decide) (by decide) (by decide)
      (by decide) (by decide) (by decide) (by decide)

/-- The founder, and another let in with the same roles. -/
def together : ReadRoster where
  val := toyRoster 2
    [founder, toyEntry sampleMember 1 .active [.billing, .members] 2] []
  property := by
    refine toyRoster_valid (by decide) (by decide) (by simp) (by decide) ?_
      (by decide) (by decide) (by simp) (by decide)
    intro entry member
    simp only [mem_cons, not_mem_nil, or_false] at member
    rcases member with rfl | rfl <;>
      exact toyEntry_valid (by decide) (by decide) (by decide) (by decide)
        (by decide) (by decide) (by decide) (by decide)

/-- The admission, with the newcomer's seal of the group's key. -/
def letIn : RosterCall where
  uploader := sampleOwner
  expectedRevision := 1
  route := .admission sampleMember
  roster := together
  digest := bytesText 32 2
  succession := none
  seals := [{ groupKeyVersion := 1
              holderUserId := sampleMember
              holderKeyVersion := 1
              sealerUserId := sampleOwner }]
  elsewhere := false

/--
An account's deletion lists no groups; the account takes an invitation and is
let in; the founder hands over and leaves; the deletion then ends.
-/
def overtaken : List Move :=
  [.delete 1 sampleMember,
    .accept sampleMember [.billing, .members] false,
    .read 1,
    .write 1 letIn,
    .leave sampleOwner false false false,
    .finish 1 false]

theorem exists_of_toOption
    {answer : Except Refusal Group}
    {meets : Group → Bool}
    (computed : answer.toOption.any meets = true) :
    ∃ group, answer = .ok group ∧ meets group = true := by
  rw [Option.any_eq_true] at computed
  obtain ⟨group, found, met⟩ := computed
  refine ⟨group, ?_, met⟩
  cases answer with
  | error refusal =>
    cases found
  | ok other =>
    cases found
    rfl

/-- A deletion that was overtaken leaves the member on the head. -/
theorem overtaken_leaves :
    ∃ created, createFamily sampleOwner alone (bytesText 32 1) =
        .ok created ∧
      ((World.start created).run overtaken).group.dissolved = false ∧
      active (rosterEntry ((World.start created).run overtaken).group.head
        sampleMember) = true ∧
      ((World.start created).run overtaken).group.departures.has
        sampleMember = false ∧
      ((World.start created).run overtaken).group.memberships.keys =
        [sampleOwner] ∧
      ((World.start created).run overtaken).group.isActive sampleOwner =
        false := by
  have computed : ((createFamily sampleOwner alone (bytesText 32
      1)).toOption.any fun created =>
        let group := ((World.start created).run overtaken).group
        !group.dissolved &&
          (active (rosterEntry group.head sampleMember) &&
            (!group.departures.has sampleMember &&
              (decide (group.memberships.keys = [sampleOwner]) &&
                !group.isActive sampleOwner)))) = true := by
    decide
  obtain ⟨created, made, computed⟩ := exists_of_toOption computed
  simp only [Bool.and_eq_true, Bool.not_eq_true', decide_eq_true_eq]
    at computed
  exact ⟨created, made, computed⟩

/-- The member is gone, and the chain lists them for ever. -/
theorem overtaken_disagrees :
    ¬ ∀ userId (first : ReadRoster) digest created,
        createFamily userId first digest = .ok created →
        ∀ moves, ((World.start created).run moves).group.dissolved = false →
          Agrees ((World.start created).run moves).group := by
  intro all
  obtain ⟨created, made, undissolved, listed, stays, members, _⟩ :=
    overtaken_leaves
  have agrees := all _ _ _ created made overtaken undissolved
  rcases (agrees.listed sampleMember).mp listed with isActive | departed
  · have member := mem_listActiveMemberIds.mpr isActive
    have among := (mem_filter.mp member).1
    rw [members, mem_singleton] at among
    exact absurd among (by decide)
  · rw [stays] at departed
    cases departed

/-- A deletion departs, where that computes. -/
theorem departs_of_checked
    {world : World}
    {number : Nat}
    {elsewhere : Bool}
    (checked : ((world.deletions.get? number).all fun deletion =>
      deletion.2 || !world.group.isActive deletion.1) = true) :
    world.Departs (.finish number elsewhere) := by
  intro userId found _ _
  simpa [found] using checked

/--
Two deletions end: of someone who took an invitation once it had listed no
groups, and of the member let in, whose deletion listed this one.
-/
def deleting : List Move :=
  [.delete 2 "invited",
    .accept "invited" [] false,
    .accept sampleMember [.billing, .members] false,
    .read 1,
    .write 1 letIn,
    .delete 1 sampleMember,
    .finish 2 false,
    .finish 1 false]

/-- Every step of the deleting run departs as it should. -/
theorem departs_deleting :
    ∃ created, createFamily sampleOwner alone (bytesText 32 1) =
        .ok created ∧
      Runs.Each World.step World.Departs (World.start created) deleting ∧
      ((World.start created).run deleting).group.dissolved = false ∧
      ((World.start created).run deleting).group.departures.has
        sampleMember = true := by
  have computed : ((createFamily sampleOwner alone (bytesText 32
      1)).toOption.any fun created =>
        let before := (World.start created).run (deleting.take 6)
        let between := (World.start created).run (deleting.take 7)
        let group := ((World.start created).run deleting).group
        (before.deletions.get? 2).all (fun deletion =>
            deletion.2 || !before.group.isActive deletion.1) &&
          ((between.deletions.get? 1).all (fun deletion =>
              deletion.2 || !between.group.isActive deletion.1) &&
            (!group.dissolved && group.departures.has sampleMember))) =
          true := by
    decide
  obtain ⟨created, made, computed⟩ := exists_of_toOption computed
  simp only [Bool.and_eq_true, Bool.not_eq_true'] at computed
  obtain ⟨first, second, undissolved, departed⟩ := computed
  exact ⟨created, made,
    ⟨trivial, trivial, trivial, trivial, trivial, trivial,
      departs_of_checked first, departs_of_checked second, trivial⟩,
    undissolved, departed⟩

/-- The family agrees with its chain, the member's departure pending. -/
theorem memberships_agree_deleting :
    ∃ created, createFamily sampleOwner alone (bytesText 32 1) =
        .ok created ∧
      Agrees ((World.start created).run deleting).group ∧
      ((World.start created).run deleting).group.departures.has
        sampleMember = true := by
  obtain ⟨created, made, departs, undissolved, departed⟩ := departs_deleting
  exact ⟨created, made, ((memberships_agree made deleting).mpr departs deleting
    (prefix_refl _) undissolved).1, departed⟩

/-- And nobody is left who could sign anything. -/
theorem overtaken_unsigned :
    ¬ ∀ userId (first : ReadRoster) digest created,
        createFamily userId first digest = .ok created →
        ∀ moves, ((World.start created).run moves).group.dissolved = false →
          ∃ holder,
            ((World.start created).run moves).group.holds holder .members =
              true := by
  intro all
  obtain ⟨created, made, undissolved, _, _, members, left⟩ :=
    overtaken_leaves
  obtain ⟨holder, holds⟩ := all _ _ _ created made overtaken undissolved
  have isActive := isActive_of_holds holds
  have among := (mem_filter.mp (mem_listActiveMemberIds.mpr isActive)).1
  rw [members, mem_singleton] at among
  rw [among, left] at isActive
  cases isActive

/-- After two deletions that departed someone can sign, and is sealed to. -/
theorem someone_can_sign_deleting :
    ∃ created, createFamily sampleOwner alone (bytesText 32 1) =
        .ok created ∧
      ∃ holder, ((World.start created).run deleting).group.holds holder
          .members = true ∧
        ((World.start created).run deleting).group.seals.has
          (((World.start created).run deleting).group.groupKeyVersion,
            holder) = true := by
  obtain ⟨created, made, departs, undissolved, _⟩ := departs_deleting
  exact ⟨created, made, (someone_can_sign made rfl departs undissolved).1⟩

end Overtaken

end Groups

end HushOS
