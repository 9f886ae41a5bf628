import HushOS.Groups.Appending
import HushOS.Toolkit.Sparing

namespace HushOS

open Toolkit List OrderedMap

namespace Groups

/-!
# Every committed state

A group stands in every state its calls, departures and deletions reach, as
long as no account goes that is an active member and whose deletion never
listed the group: such a deletion reads the account's groups before it locks
anything, and whoever is let in meanwhile loses their membership and their
seals with no departure recorded.
-/

/-- The refusal of a roster whose dropped holder the server counts otherwise. -/
abbrev DROPS_HOLDER : Refusal := .invalid "drops-holder"

/-- Applying a change is never refused for a dropped holder. -/
theorem spares_applyChange
    (stored : OrderedMap String Membership)
    (departed : OrderedMap String Bool)
    (route : ChainRoute)
    (applied : Group × Bool)
    (change : EntryChange) :
    Spares DROPS_HOLDER
      (applyChange stored departed route applied change) := by
  unfold applyChange
  dsimp only
  split
  · exact (Spares.refuseIf fun _ => by decide).bind fun _ _ =>
      (Spares.refuseIf fun _ => by decide).bind fun _ _ => .ok _
  · split
    · refine (Spares.refuseIf fun _ => by decide).bind fun _ _ => ?_
      split
      · exact .ok _
      · exact (Spares.refuseIf fun _ => by decide).bind fun _ _ => .ok _
    · split
      · refine (Spares.refuseIf fun _ => by decide).bind fun _ _ => ?_
        split
        · exact .ok _
        · exact (Spares.refuseIf fun _ => by decide).bind fun _ _ => .ok _
      · exact (Spares.refuseIf fun _ => by decide).bind fun _ _ => .ok _

theorem spares_applyRoster
    (departed : OrderedMap String Bool)
    (route : ChainRoute)
    (changes : List EntryChange)
    (group : Group) :
    Spares DROPS_HOLDER (applyRoster departed route changes group) := by
  refine (Spares.refuseIf fun _ => by decide).bind fun _ _ =>
    Spares.bind ?_ fun _ _ =>
      (Spares.foldEach (spares_applyChange _ _ _) _ _).bind fun _ _ =>
        (Spares.refuseIf fun _ => by decide).bind fun _ _ =>
          (Spares.refuseIf fun _ => by decide).bind fun _ _ => .ok _
  unfold requireTarget
  split
  · refine .refuseIf fun _ => ?_
    cases route <;> simp only [ChainRoute.kind] <;> decide
  · exact .ok _

variable {group : Group} {move : Move} {world : World}

/-- A roster that follows is never refused for a dropped holder. -/
theorem spares_appendRoster
    (agrees : Agrees group)
    {next : Roster}
    (valid : next.Valid)
    (follows : Follows group.head next)
    (route : ChainRoute)
    (succession : Option ParsedSuccession)
    (digest : String) :
    Spares DROPS_HOLDER
      (appendRoster group route succession
        { roster := next
          digest
          changes := changesOf group.head next
          dropsHolder := dropsHolder group.head next }) := by
  refine (Spares.refuseIf fun _ => by decide).bind fun _ _ =>
    (Spares.refuseIf fun _ => by decide).bind fun _ _ =>
      Spares.bind ?_ fun _ admission =>
        (Spares.refuseIf fun _ => by simp).bind fun _ marked =>
          (spares_applyRoster _ _ _ _).bind fun projected applied =>
            Spares.bind (Spares.refuseIf fun differs => ?_) fun _ _ =>
              (Spares.refuseIf fun _ => by decide).bind fun _ _ => .ok _
  · unfold checkAdmission
    split
    · exact .refuseIf fun _ => by decide
    · exact .ok _
  · have is : Projected group projected.1 route next projected.2 :=
      projected_of_checks agrees valid follows admission
        (not_not.mp (refuseIf_eq_ok.mp marked)) applied
    exact absurd is.drops_eq differs

/-- A chain is refused for a dropped holder only by its roster. -/
theorem spares_appendChain
    {input : ChainInput}
    (roster : group.dissolved = false →
      group.chainRevision = input.expectedRevision →
        ∀ parsed ∈ input.roster, Spares DROPS_HOLDER
          (appendRoster group input.route input.succession parsed)) :
    Spares DROPS_HOLDER (appendChain group input) := by
  refine Spares.bind ?_ fun _ _ =>
    (Spares.refuseIf fun _ => by decide).bind fun _ locked =>
      Spares.bind ?_ fun _ _ =>
        (Spares.refuseIf fun _ => by decide).bind fun _ _ =>
          (Spares.refuseIf fun _ => by decide).bind fun _ revision =>
            Spares.bind ?_ fun _ _ => Spares.bind ?_ fun _ _ =>
              Spares.bind ?_ fun _ _ => .ok _
  · exact (Spares.refuseIf fun _ => by decide).bind fun _ _ =>
      (Spares.refuseIf fun _ => by decide).bind fun _ _ =>
        .refuseIf fun _ => by decide
  · refine Spares.bind ?_ fun _ _ => .refuseIf fun _ => by decide
    unfold uploaderRoles
    split
    · exact .ok _
    · exact .error (by decide)
  · unfold appendPart
    split
    · next parsed carried =>
        exact roster (lockGroup_eq_ok.mp locked)
          (not_not.mp (refuseIf_eq_ok.mp revision)) parsed carried
    · exact .ok _
  · unfold appendPart
    split
    · exact (Spares.refuseIf fun _ => by decide).bind fun _ _ => .ok _
    · exact .ok _
  · refine Spares.bind (Spares.forEach (fun given => ?_) _) fun _ _ =>
      (Spares.refuseIf fun _ => by decide).bind fun _ _ => .ok _
    exact (Spares.refuseIf fun _ => by decide).bind fun _ _ =>
      (Spares.refuseIf fun _ => by decide).bind fun _ _ =>
        .refuseIf fun _ => by decide

/-- A chain write is never refused for a dropped holder. -/
theorem spares_writeChain
    {reading : Reading}
    {call : RosterCall}
    (standing : group.dissolved = false → Standing group)
    (current : group.dissolved = false →
      reading.chain.revision = group.chainRevision → Current group reading) :
    Spares DROPS_HOLDER (writeChain group reading call) := by
  refine (Spares.refuseIf fun _ => by decide).bind fun _ expected =>
    (Spares.refuseIf fun _ => by decide).bind fun _ _ =>
      (Spares.refuseIf fun _ => by decide).bind fun _ _ =>
        Spares.bind ?_ fun parsed checked => Spares.bind ?_ fun _ _ =>
          Spares.bind ?_ fun _ _ => Spares.bind ?_ fun _ _ =>
            Spares.bind ?_ fun _ _ => spares_appendChain ?_
  · exact (Spares.refuseIf fun _ => by decide).bind fun _ _ =>
      (Spares.refuseIf fun _ => by decide).bind fun _ _ => .ok _
  · unfold keyVersionAfter
    split
    · exact (Spares.refuseIf fun _ => by decide).bind fun _ _ =>
        (Spares.refuseIf fun _ => by decide).bind fun _ _ => .ok _
    · exact .ok _
  · exact Spares.forEach (fun _ => (Spares.refuseIf fun _ => by decide).bind
      fun _ _ => .refuseIf fun _ => by decide) _
  · unfold requireNewKeySealed
    split
    · exact .refuseIf fun _ => by decide
    · exact .ok _
  · exact Spares.forEach (fun _ => .refuseIf fun _ => by decide) _
  · intro undissolved revision given carried
    rw [Option.mem_def, Option.some.injEq] at carried
    subst carried
    simp only [checkRoster, bind_eq_ok, exists_unit, refuseIf_eq_ok, not_not,
      Except.ok.injEq] at checked
    obtain ⟨_, follows, rfl⟩ := checked
    have isCurrent := current undissolved
      ((not_not.mp (refuseIf_eq_ok.mp expected)).trans revision.symm)
    rw [isCurrent.chain] at follows ⊢
    exact spares_appendRoster (standing undissolved).agrees
      call.roster.property follows _ _ _

/-- What one step leaves of the chain, of who is active, and of the group. -/
structure Moved (group after : Group) : Prop where
  undissolved : after.dissolved = false → group.dissolved = false
  standing : after.dissolved = false → Standing after
  chain : (storedChain after = storedChain group ∧
      ∀ userId, after.isActive userId = true → group.isActive userId = true) ∨
    after.chainRevision = group.chainRevision + 1

/-- What holds of a group and of the calls under way in it. -/
structure Kept (world : World) : Prop where
  standing : world.group.dissolved = false → Standing world.group
  readings : ∀ number reading, world.calls.get? number = some reading →
    reading.chain.revision ≤ world.group.chainRevision ∧
      (world.group.dissolved = false →
        reading.chain.revision = world.group.chainRevision →
          Current world.group reading)

section

variable {group after : Group}

theorem Moved.quiet
    (dissolved : after.dissolved = group.dissolved)
    (chain : storedChain after = storedChain group)
    (same : ∀ userId, after.activeRoles userId = group.activeRoles userId)
    (standing : group.dissolved = false → Standing after) :
    Moved group after := by
  refine ⟨fun still => dissolved ▸ still,
    fun still => standing (dissolved ▸ still), .inl ⟨chain, ?_⟩⟩
  intro userId isActive
  unfold Group.isActive at isActive ⊢
  rwa [same] at isActive

/-- Appending raises the chain's revision by one. -/
theorem revision_of_appendChain
    {input : ChainInput}
    (appended : appendChain group input = .ok after) :
    after.chainRevision = group.chainRevision + 1 ∧
      after.dissolved = group.dissolved := by
  obtain ⟨_, _, rostered, ready, stored, first, second, third, rfl⟩ :=
    appendChain_eq_ok appended
  have early : rostered.chainRevision = group.chainRevision ∧
      rostered.dissolved = group.dissolved := by
    unfold appendPart at first
    split at first
    · simp only [appendRoster, bind_eq_ok, exists_unit, refuseIf_eq_ok,
        not_not, Except.ok.injEq] at first
      obtain ⟨_, _, _, _, ⟨projected, drops⟩, applied, _, _, rfl⟩ := first
      obtain ⟨_, wrote, _⟩ := applyRoster_eq_ok applied
      constructor
      · change projected.chainRevision = _
        rw [wrote.rest]
      · change projected.dissolved = _
        rw [wrote.rest]
    · rw [Except.ok.injEq] at first
      subst first
      exact ⟨rfl, rfl⟩
  have later : ready.chainRevision = rostered.chainRevision ∧
      ready.dissolved = rostered.dissolved := by
    unfold appendPart at second
    split at second
    · simp only [appendSuccession, bind_eq_ok, exists_unit,
        Except.ok.injEq] at second
      obtain ⟨_, rfl⟩ := second
      exact ⟨rfl, rfl⟩
    · rw [Except.ok.injEq] at second
      subst second
      exact ⟨rfl, rfl⟩
  have last := (stored_of_upsertSeals third).1.rest
  constructor
  · change stored.chainRevision + 1 = _
    rw [last]
    exact congrArg (· + 1) (later.1.trans early.1)
  · change stored.dissolved = _
    rw [last]
    exact later.2.trans early.2

theorem Moved.appended
    (revision : after.chainRevision = group.chainRevision + 1)
    (dissolved : after.dissolved = group.dissolved)
    (standing : group.dissolved = false → Standing after) :
    Moved group after :=
  ⟨fun still => dissolved ▸ still,
    fun still => standing (dissolved ▸ still), .inr revision⟩

variable {userId : String}

theorem Moved.departed
    {elsewhere : Bool}
    (departed : depart group userId elsewhere = .ok after)
    (undissolved : group.dissolved = false)
    (standing : Standing group) :
    Moved group after :=
  ⟨fun _ => undissolved,
    (departed_of_depart departed).standing standing,
    .inl ⟨Departed.chain departed,
      fun _ => (departed_of_depart departed).fewer⟩⟩

theorem cascade_fewer
    (group : Group)
    (gone : String)
    (isActive : (cascade group gone).isActive userId = true) :
    group.isActive userId = true := by
  rw [isActive_iff, stateOf, cascade, get?_erase] at isActive
  rw [isActive_iff, stateOf]
  split at isActive
  · cases isActive
  · exact isActive

/-- A deleted account moves its group only by departing. -/
theorem Moved.deleted
    {listed elsewhere : Bool}
    (deleted : deleteAccount group userId listed elsewhere = .ok after)
    (departs : group.dissolved = false → listed = false →
      group.isActive userId = false)
    (standing : group.dissolved = false → Standing group) :
    Moved group after := by
  cases dissolved : group.dissolved with
  | true =>
    simp only [deleteAccount, dissolved, Bool.true_eq_false, and_false,
      if_false, Except.ok.injEq] at deleted
    subst deleted
    refine ⟨fun still => absurd (dissolved.symm.trans still) (by decide),
      fun still => absurd (dissolved.symm.trans still) (by decide),
      .inl ⟨rfl, fun _ => cascade_fewer group userId⟩⟩
  | false =>
    obtain ⟨before, rfl, was, inactive⟩ := deleteAccount_eq_ok deleted
      (departs dissolved) dissolved
    have moved : Moved group before := by
      rcases was with rfl | departed
      · exact .quiet rfl rfl (fun _ => rfl) standing
      · exact .departed departed dissolved (standing dissolved)
    refine ⟨fun _ => dissolved,
      fun still => standing_cascade (moved.standing still) inactive, ?_⟩
    rcases moved.chain with ⟨chain, fewer⟩ | revision
    · exact .inl ⟨chain, fun other isActive =>
        fewer other (cascade_fewer before userId isActive)⟩
    · exact .inr revision

end

/-- An accepted move moves the group as listed. -/
theorem moved_of_attempt
    (kept : Kept world)
    (departs : world.Departs move)
    {after : Group}
    (attempted : world.attempt move = .ok after) :
    Moved world.group after := by
  have unchanged : Moved world.group world.group :=
    .quiet rfl rfl (fun _ => rfl) kept.standing
  cases move with
  | read number =>
    cases attempted
    exact unchanged
  | list number =>
    cases attempted
    exact unchanged
  | delete number userId =>
    cases attempted
    exact unchanged
  | write number call =>
    simp only [World.attempt] at attempted
    split at attempted
    · next reading found =>
        obtain ⟨_, _, appended⟩ := writeChain_eq_ok attempted
        obtain ⟨revision, dissolved⟩ := revision_of_appendChain appended
        exact .appended revision dissolved fun undissolved =>
          (appended_of_writeChain (kept.standing undissolved)
            ((kept.readings number reading found).2 undissolved)
            attempted).standing
    · cases attempted
  | succeed number call =>
    simp only [World.attempt] at attempted
    split at attempted
    · next reading found =>
        have posted := attempted
        simp only [postSuccession, bind_eq_ok, exists_unit] at posted
        obtain ⟨_, _, _, _, _, appended⟩ := posted
        obtain ⟨revision, dissolved⟩ := revision_of_appendChain appended
        exact .appended revision dissolved fun undissolved =>
          (appended_of_postSuccession (kept.standing undissolved)
            ((kept.readings number reading found).2 undissolved)
            attempted).standing
    · cases attempted
  | putKeySeals number uploader seals =>
    simp only [World.attempt] at attempted
    split at attempted
    · next reading found =>
        have put := attempted
        simp only [putKeySeals, storeSeals, bind_eq_ok, exists_unit] at put
        obtain ⟨_, _, _, _, _, upserted⟩ := put
        have rest := (stored_of_upsertSeals upserted).1.rest
        exact .quiet (by rw [rest]) (by rw [rest]; rfl)
          (fun userId => by rw [rest]; rfl)
          fun undissolved => standing_putKeySeals (kept.standing undissolved)
            attempted
    · cases attempted
  | accept userId invitationRoles elsewhere =>
    simp only [World.attempt] at attempted
    split at attempted
    · cases attempted
    · have accepted := attempted
      simp only [acceptInvitation, bind_eq_ok, exists_unit, refuseIf_eq_ok,
        Except.ok.injEq] at accepted
      obtain ⟨_, inactive, _, rfl⟩ := accepted
      refine .quiet rfl rfl (activeRoles_accepted (by simpa using inactive))
        fun undissolved => standing_acceptInvitation
          (kept.standing undissolved) attempted
  | decline holder userId =>
    have declined := attempted
    simp only [World.attempt, declinePending, bind_eq_ok, exists_unit,
      refuseIf_eq_ok, not_not, Except.ok.injEq] at declined
    obtain ⟨_, _, waiting, rfl⟩ := declined
    exact .quiet rfl rfl
      (activeRoles_setMembership (isActive_of_stateOf waiting (by decide))
        fun _ => by simp)
      fun undissolved => standing_declinePending
        (kept.standing undissolved) attempted
  | leave userId mustDissolve onlyAccepted elsewhere =>
    simp only [World.attempt, leaveGroup, bind_eq_ok, exists_unit,
      Except.ok.injEq] at attempted
    obtain ⟨locked, _, left, departed, _, rfl⟩ := attempted
    have undissolved := lockGroup_eq_ok.mp locked
    exact .departed departed undissolved (kept.standing undissolved)
  | finish number elsewhere =>
    simp only [World.attempt] at attempted
    split at attempted
    · next userId listed found =>
        split at attempted
        · cases attempted
        · next here =>
            refine .deleted attempted ?_ kept.standing
            rintro undissolved rfl
            exact departs userId found here undissolved
    · cases attempted

theorem group_step
    (world : World)
    (move : Move) :
    (∃ after, world.attempt move = .ok after ∧
        (world.step move).group = after) ∨
      (∃ refusal, world.attempt move = .error refusal ∧
        (world.step move).group = world.group) := by
  have recorded : (world.record move).group = world.group := by
    unfold World.record
    split <;> try rfl
    split <;> rfl
  unfold World.step
  cases attempted : world.attempt move with
  | ok after =>
    exact .inl ⟨after, rfl, rfl⟩
  | error refusal =>
    exact .inr ⟨refusal, rfl, recorded⟩

/-- A call's reading is an earlier one or that of the group now. -/
theorem calls_step
    {number : Nat}
    {reading : Reading}
    (found : (world.step move).calls.get? number = some reading) :
    world.calls.get? number = some reading ∨
      ((world.step move).group = world.group ∧
        reading.active = listActiveMemberIds world.group ∧
          (reading.chain = storedChain world.group ∨
            ∃ before, world.calls.get? number = some before ∧
              reading.chain = before.chain)) := by
  have calls : (world.step move).calls = (world.record move).calls := by
    unfold World.step
    split <;> rfl
  rw [calls] at found
  cases move with
  | read other =>
    rcases get?_set_cases found with ⟨_, rfl⟩ | ⟨_, before⟩
    · exact .inr ⟨rfl, rfl, .inl rfl⟩
    · exact .inl before
  | list other =>
    change (world.calls.update _ _).get? number = some reading at found
    rw [get?_update, Option.map_eq_some_iff] at found
    obtain ⟨before, was, is⟩ := found
    split at is
    · subst is
      exact .inr ⟨rfl, rfl, .inr ⟨before, was, rfl⟩⟩
    · exact .inl (is ▸ was)
  | finish other elsewhere =>
    left
    unfold World.record at found
    dsimp only at found
    split at found <;> exact found
  | write other call => exact .inl found
  | succeed other call => exact .inl found
  | putKeySeals other uploader seals => exact .inl found
  | accept userId invitationRoles elsewhere => exact .inl found
  | decline holder userId => exact .inl found
  | leave userId mustDissolve onlyAccepted elsewhere => exact .inl found
  | delete other userId => exact .inl found

/-- Every move keeps group and calls in agreement. -/
theorem Kept.step
    (kept : Kept world)
    (departs : world.Departs move) :
    Kept (world.step move) := by
  have moved : Moved world.group (world.step move).group := by
    rcases group_step world move with ⟨after, attempted, is⟩ | ⟨_, _, is⟩
    · rw [is]
      exact moved_of_attempt kept departs attempted
    · rw [is]
      exact .quiet rfl rfl (fun _ => rfl) kept.standing
  refine ⟨moved.standing, ?_⟩
  intro number reading found
  rcases calls_step found with before | ⟨same, isActive, chain⟩
  · obtain ⟨reached, current⟩ := kept.readings number reading before
    rcases moved.chain with ⟨still, fewer⟩ | revision
    · have revision : (world.step move).group.chainRevision =
          world.group.chainRevision :=
        congrArg StoredChain.revision still
      rw [revision]
      refine ⟨reached, fun undissolved isNow => ?_⟩
      have was := current (moved.undissolved undissolved) isNow
      exact ⟨was.chain.trans still.symm,
        fun userId isActive => was.active userId (fewer userId isActive)⟩
    · rw [revision]
      exact ⟨by omega, fun _ isNow => by omega⟩
  · rw [same]
    have active : ∀ userId, world.group.isActive userId = true →
        userId ∈ reading.active := by
      intro userId isMember
      rw [isActive]
      exact mem_listActiveMemberIds.mpr isMember
    rcases chain with now | ⟨before, was, chain⟩
    · rw [now]
      exact ⟨Nat.le_refl _, fun _ _ => ⟨now, active⟩⟩
    · obtain ⟨reached, current⟩ := kept.readings number before was
      rw [chain]
      exact ⟨reached, fun undissolved isNow =>
        ⟨chain.trans (current undissolved isNow).chain, active⟩⟩

/-- A new group's seals stand. -/
theorem standing_createGroup
    {creatorUserId digest : String}
    {first : ReadRoster}
    {keySeal : SealInput}
    {created : Group}
    (version : keySeal.groupKeyVersion = 1)
    (made : createGroup creatorUserId (firstRoster first.val digest) keySeal =
      .ok created) :
    created.dissolved = false ∧ Standing created := by
  simp only [createGroup, bind_eq_ok, exists_unit, refuseIf_eq_ok] at made
  obtain ⟨_, made⟩ := made
  split at made
  · next creator listed =>
      simp only [bind_eq_ok, exists_unit, refuseIf_eq_ok, not_or, not_not,
        Bool.not_eq_false] at made
      obtain ⟨⟨_, _, _, _, mine, isActive, members, billing⟩, holder,
        upserted⟩ := made
      obtain ⟨stored, given⟩ := stored_of_upsertSeals upserted
      obtain ⟨entry, only, is⟩ := map_eq_singleton_iff.mp listed
      subst is
      have inFirst : ∀ userId, rosterEntry first.val userId =
          if entry.userId = userId then some entry else none := by
        intro userId
        unfold rosterEntry
        rw [only, find?_cons]
        by_cases same : entry.userId = userId <;> simp [same]
      have roles : ∀ userId, created.activeRoles userId =
          if userId = creatorUserId then some entry.roles else none := by
        intro userId
        rw [stored.rest]
        unfold Group.activeRoles
        dsimp only
        rw [get?_set]
        by_cases same : userId = creatorUserId <;> simp [same]
      have active_ : ∀ userId, created.isActive userId =
          decide (userId = creatorUserId) := by
        intro userId
        unfold Group.isActive
        rw [roles]
        by_cases same : userId = creatorUserId <;> simp [same]
      have head : created.head = first.val := by
        rw [stored.rest]
        rfl
      have nobody : created.departures = .empty := by
        rw [stored.rest]
      have keyVersion : created.groupKeyVersion = 1 := by
        rw [stored.rest]
      have holds : ∀ role ∈ entry.roles,
          created.holds creatorUserId role = true := by
        intro role member
        exact holds_iff.mpr ⟨_, (roles _).trans (if_pos rfl), member⟩
      rw [contains_iff_mem] at members billing
      dsimp only at mine isActive members billing
      refine ⟨by rw [stored.rest], ⟨head ▸ first.property, ?_, ?_, ?_, ?_,
        ⟨_, holds _ members⟩, ⟨_, holds _ billing⟩⟩, ⟨?_, ?_, ?_⟩,
        by rw [stored.rest]⟩
      · intro userId
        rw [head, nobody, active_, inFirst, mine]
        by_cases same : creatorUserId = userId
        · simp [same, active, isActive]
        · simp only [same, if_false, Ne.symm same]
          simp [active]
      · intro userId departed
        rw [nobody] at departed
        cases departed
      · intro userId found listed
        rw [roles] at listed
        split at listed
        · next same =>
            rw [Option.some.injEq] at listed
            refine ⟨entry, ?_, listed.symm⟩
            rw [head, inFirst, mine, if_pos same.symm]
        · cases listed
      · intro userId held found
        rw [nobody] at found
        cases found
      · intro userId isSealed
        unfold Group.sealed at isSealed
        rcases (stored.has _).mp isSealed with before | ⟨one, member, at_⟩
        · cases before
        · rw [mem_singleton] at member
          rw [Prod.mk.injEq] at at_
          rw [at_.2, member, holder]
          exact holds _ members
      · intro version userId isStored
        rw [keyVersion]
        rcases (stored.has _).mp isStored with before | ⟨one, member, at_⟩
        · cases before
        · rw [Prod.mk.injEq] at at_
          exact at_.1 ▸ (given one member).2
      · refine ⟨creatorUserId, holds _ members, ?_⟩
        unfold Group.sealed
        rw [keyVersion]
        exact (stored.has _).mpr (.inr ⟨keySeal, mem_cons_self, by
          rw [version, holder]⟩)
  · cases made

theorem kept_createFamily
    {userId digest : String}
    {first : ReadRoster}
    {created : Group}
    (made : createFamily userId first digest = .ok created) :
    Kept (World.start created) := by
  simp only [createFamily, bind_eq_ok, exists_unit] at made
  obtain ⟨_, made⟩ := made
  split at made
  · simp only [bind_eq_ok, exists_unit] at made
    obtain ⟨_, created⟩ := made
    obtain ⟨_, standing⟩ := standing_createGroup rfl created
    exact ⟨fun _ => standing, fun _ _ found => nomatch found⟩
  · cases made

theorem kept_run
    (kept : Kept world)
    {moves : List Move}
    (departs : Runs.Each World.step World.Departs world moves) :
    Kept (world.run moves) :=
  Runs.keeps_of_each Kept (fun _ _ departs kept => kept.step departs) departs
    kept

end Groups

end HushOS
