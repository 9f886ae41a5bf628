import HushOS.Growth.Rewards
import Mathlib.Tactic.Common

namespace HushOS

open Toolkit List OrderedMap

namespace Growth

/-!
# Rewards once and within their caps

A referral's row is held by one transaction at a time, so no reward is granted
twice.  The cap is a sum over other referrals' rewards, which no row holds: it
is kept in the runs in which whoever finds room under it finds room beside the
transactions in flight that found room before.
-/

section Totals

variable {rewards more : List Reward} {userId : Uuid} {side : RewardSide}

@[simp] theorem grantedBytes_nil (userId : Uuid) (side : RewardSide) :
    grantedBytes [] userId side = 0 :=
  rfl

theorem grantedBytes_append :
    grantedBytes (rewards ++ more) userId side =
      grantedBytes rewards userId side + grantedBytes more userId side := by
  simp only [grantedBytes, filter_append, map_append,
    sum_append]

theorem grantedBytes_eq_zero
    (others : ∀ reward ∈ rewards, reward.side ≠ side) :
    grantedBytes rewards userId side = 0 := by
  have empty : (rewards.filter fun reward =>
      reward.userId = userId ∧ reward.side = side) = [] := by
    refine filter_eq_nil_iff.mpr fun reward member => ?_
    simp [others reward member]
  rw [grantedBytes, empty]
  rfl

theorem grantedBytes_single (reward : Reward) :
    grantedBytes [reward] userId side =
      if reward.userId = userId ∧ reward.side = side then
        reward.quotaBytes
      else 0 := by
  by_cases same : reward.userId = userId ∧ reward.side = side
  · simp [grantedBytes, same]
  · simp [grantedBytes, same]

end Totals

/-- Whom a transaction's `grantOnce` is for, while it runs one. -/
def Phase.turn? : Phase → Option Turn
  | .checking turn => some turn
  | .finding turn => some turn
  | .entitling turn _ => some turn
  | .recording turn _ => some turn
  | .totalling => none
  | .settled => none

/-- Whom a transaction has found without their reward. -/
def Phase.absent? : Phase → Option Turn
  | .finding turn => some turn
  | .entitling turn _ => some turn
  | .recording turn _ => some turn
  | _ => none

/-- Whether a reward is this referral's on this side. -/
def Reward.Is (reward : Reward) (referralId : Uuid) (side : RewardSide) : Prop :=
  reward.referralId = referralId ∧ reward.side = side

/-- What holds of a transaction's writes, beside what is committed. -/
structure Stands (committed : List Reward) (held : Held) : Prop where
  /-- They are its own referral's. -/
  named : ∀ reward ∈ held.rewards, reward.referralId = held.referralId
  /-- The new account's reward is the first. -/
  first : held.phase.turn? = some .referred → held.rewards = []
  /-- The referrer's is the last. -/
  early : held.phase ≠ .settled →
    ∀ reward ∈ held.rewards, reward.side = .referred
  /-- Each side is written once. -/
  once : held.rewards.Pairwise fun reward later => reward.side ≠ later.side
  /-- None is committed. -/
  apart : ∀ reward ∈ held.rewards, ∀ other ∈ committed,
    ¬ other.Is reward.referralId reward.side
  /-- A reward found missing is missing still. -/
  absent : ∀ turn, held.phase.absent? = some turn →
    ∀ other ∈ committed ++ held.rewards,
      ¬ other.Is held.referralId (held.sideOf turn)

/-- What a statement may leave of a transaction that goes on. -/
inductive Moved (settings : Settings) (state : State) (held : Held) :
    Held → Prop
  /-- A person's reward is there, or they have no workspace. -/
  | skip
      {turn : Turn}
      (running : held.phase.turn? = some turn) :
      Moved settings state held (held.after turn)
  /-- A `grantOnce` is a statement further. -/
  | on
      {turn : Turn}
      {phase : Phase}
      {entitlements : List Entitlement}
      (running : held.phase.turn? = some turn)
      (runs : phase.turn? = some turn)
      (missing : held.phase.absent? = some turn ∨
        ∀ other ∈ state.rewards ++ held.rewards,
          ¬ other.Is held.referralId (held.sideOf turn)) :
      Moved settings state held
        { held with phase := phase, entitlements := entitlements }
  /-- A reward is written. -/
  | recorded
      {turn : Turn}
      {entitlementId : Option Uuid}
      (running : held.phase.turn? = some turn)
      (missing : held.phase.absent? = some turn) :
      Moved settings state held
        (({ held with
            rewards := held.rewards ++
              [held.rewardOf turn (settings.bonusOf held.call)
                entitlementId] } : Held).after turn)
  /-- There is room under the cap. -/
  | room
      (totalling : held.phase = .totalling)
      (fits : grantedBytes (state.rewards ++ held.rewards)
          held.referrerUserId held.call.referrerSide +
        settings.bonusOf held.call ≤ settings.capOf held.call) :
      Moved settings state held { held with phase := .checking .referrer }
  /-- There is none. -/
  | full
      (totalling : held.phase = .totalling) :
      Moved settings state held { held with phase := .settled }

/-- A held session stays, drops out, commits or moves on. -/
theorem advanceHeld_cases
    (settings : Settings)
    (state : State)
    (sid : Nat)
    (held : Held)
    (drawn : Uuid) :
    state.advanceHeld settings sid held drawn = state ∨
      state.advanceHeld settings sid held drawn = state.drop sid ∨
      (held.phase = .settled ∧
        state.advanceHeld settings sid held drawn = state.commit sid held) ∨
      ∃ after, Moved settings state held after ∧
        state.advanceHeld settings sid held drawn = state.put sid after := by
  unfold State.advanceHeld
  cases phase : held.phase with
  | checking turn =>
    have running : held.phase.turn? = some turn := by
      rw [phase]
      rfl
    refine .inr (.inr (.inr ?_))
    dsimp only
    split
    · exact ⟨_, .skip running, rfl⟩
    · next missing =>
        refine ⟨_, .on running rfl (.inr fun other member same => ?_), rfl⟩
        apply missing
        refine any_eq_true.mpr ⟨other, member, ?_⟩
        exact decide_eq_true same
  | finding turn =>
    have running : held.phase.turn? = some turn := by
      rw [phase]
      rfl
    have missing : held.phase.absent? = some turn := by
      rw [phase]
      rfl
    refine .inr (.inr (.inr ?_))
    dsimp only
    split
    · exact ⟨_, .skip running, rfl⟩
    · exact ⟨_, .on running rfl (.inl missing), rfl⟩
  | entitling turn workspaceId =>
    have running : held.phase.turn? = some turn := by
      rw [phase]
      rfl
    have missing : held.phase.absent? = some turn := by
      rw [phase]
      rfl
    dsimp only [State.entitle]
    split
    · exact .inl rfl
    · split
      · exact .inr (.inr (.inr ⟨_, .on running rfl (.inl missing), rfl⟩))
      · split
        · exact .inr (.inl rfl)
        · exact .inr (.inr (.inr ⟨_, .on running rfl (.inl missing), rfl⟩))
  | recording turn entitlementId =>
    refine .inr (.inr (.inr ⟨_, .recorded ?_ ?_, rfl⟩))
    · rw [phase]
      rfl
    · rw [phase]
      rfl
  | totalling =>
    refine .inr (.inr (.inr ?_))
    dsimp only
    split
    · next fits =>
        exact ⟨_, .room phase fits, rfl⟩
    · exact ⟨_, .full phase, rfl⟩
  | settled =>
    exact .inr (.inr (.inl ⟨rfl, rfl⟩))

theorem Moved.referralId
    {settings : Settings}
    {state : State}
    {held after : Held}
    (moved : Moved settings state held after) :
    after.referralId = held.referralId := by
  cases moved with
  | skip running =>
    next turn => cases turn <;> rfl
  | on running runs missing =>
    rfl
  | recorded running missing =>
    next turn _ => cases turn <;> rfl
  | room totalling fits =>
    rfl
  | full totalling =>
    rfl

section Standing

variable {settings : Settings} {state : State} {held next : Held}

theorem referrerSide_ne (call : Call) : call.referrerSide ≠ .referred := by
  cases call <;> nofun

theorem not_settled_of_turn
    {phase : Phase}
    {turn : Turn}
    (running : phase.turn? = some turn) :
    phase ≠ .settled := by
  rintro rfl
  cases running

theorem Stands.rephased
    (stands : Stands state.rewards held)
    {phase : Phase}
    {entitlements : List Entitlement}
    (early : phase ≠ .settled → held.phase ≠ .settled)
    (first : phase.turn? = some .referred → held.rewards = [])
    (absent : ∀ turn, phase.absent? = some turn →
      ∀ other ∈ state.rewards ++ held.rewards,
        ¬ other.Is held.referralId (held.sideOf turn)) :
    Stands state.rewards
      { held with phase := phase, entitlements := entitlements } where
  named := stands.named
  first := first
  early := fun open_ => stands.early (early open_)
  once := stands.once
  apart := stands.apart
  absent := absent

theorem Stands.turnless
    (stands : Stands state.rewards held)
    {phase : Phase}
    (early : phase ≠ .settled → held.phase ≠ .settled)
    (noTurn : phase.turn? ≠ some .referred)
    (noAbsent : phase.absent? = none) :
    Stands state.rewards { held with phase := phase } := by
  refine stands.rephased early (fun turn => absurd turn noTurn) ?_
  intro turn absent
  rw [noAbsent] at absent
  cases absent

theorem Stands.after
    (stands : Stands state.rewards held)
    {turn : Turn}
    (open_ : held.phase ≠ .settled) :
    Stands state.rewards (held.after turn) := by
  cases turn with
  | referred =>
    exact stands.turnless (fun _ => open_) nofun rfl
  | referrer =>
    exact stands.turnless (fun _ => open_) nofun rfl

/-- What a session read still stands after it moves on. -/
theorem Stands.moved
    (stands : Stands state.rewards held)
    (moved : Moved settings state held next) :
    Stands state.rewards next := by
  cases moved with
  | skip running =>
    exact stands.after (not_settled_of_turn running)
  | on running runs missing =>
    next turn phase entitlements =>
    have absentHere : ∀ other ∈ state.rewards ++ held.rewards,
        ¬ other.Is held.referralId (held.sideOf turn) := by
      rcases missing with already | found
      · exact stands.absent turn already
      · exact found
    refine stands.rephased (fun _ => not_settled_of_turn running)
      (fun referred => ?_) fun other absent => ?_
    · rw [runs] at referred
      exact stands.first (running.trans referred)
    · have same : other = turn := by
        cases phase <;> cases absent <;> cases runs <;> rfl
      subst same
      exact absentHere
  | recorded running missing =>
    next turn entitlementId =>
    have fresh := stands.absent turn missing
    have open_ := not_settled_of_turn running
    have sideOfNew : ∀ reward ∈ held.rewards,
        reward.side ≠ held.sideOf turn := by
      intro reward member same
      exact fresh reward (mem_append_right _ member)
        ⟨stands.named reward member, same⟩
    have named : ∀ reward ∈ held.rewards ++
        [held.rewardOf turn (settings.bonusOf held.call) entitlementId],
        reward.referralId = held.referralId := by
      intro reward member
      rcases mem_append.mp member with old | new
      · exact stands.named reward old
      · rw [mem_singleton.mp new]
        rfl
    have once := pairwise_append.mpr ⟨stands.once,
      pairwise_singleton
        (fun reward later : Reward => reward.side ≠ later.side)
        (held.rewardOf turn (settings.bonusOf held.call) entitlementId),
      fun reward member later isLater =>
        mem_singleton.mp isLater ▸ sideOfNew reward member⟩
    have apart : ∀ reward ∈ held.rewards ++
        [held.rewardOf turn (settings.bonusOf held.call) entitlementId],
        ∀ other ∈ state.rewards,
          ¬ other.Is reward.referralId reward.side := by
      intro reward member other committed
      rcases mem_append.mp member with old | new
      · exact stands.apart reward old other committed
      · rw [mem_singleton.mp new]
        exact fresh other (mem_append_left _ committed)
    cases turn with
    | referred =>
      exact
        { named := named
          first := nofun
          early := by
            intro _ reward member
            rcases mem_append.mp member with old | new
            · exact stands.early open_ reward old
            · rw [mem_singleton.mp new]
              rfl
          once := once
          apart := apart
          absent := nofun }
    | referrer =>
      exact
        { named := named
          first := nofun
          early := fun open_ => absurd rfl open_
          once := once
          apart := apart
          absent := nofun }
  | room totalling fits =>
    refine stands.turnless (fun _ => ?_) nofun rfl
    rw [totalling]
    nofun
  | full totalling =>
    exact stands.turnless (fun open_ => absurd rfl open_) nofun rfl

end Standing

/-- No two committed rewards are one referral's on one side, nor any to come. -/
structure Once (state : State) : Prop where
  /-- A referral's row is held by one transaction. -/
  alone : ∀ sid other held otherHeld,
    state.sessions.get? sid = some (.holding held) →
      state.sessions.get? other = some (.holding otherHeld) →
        held.referralId = otherHeld.referralId → sid = other
  /-- Every transaction stands. -/
  stands : ∀ sid held, state.sessions.get? sid = some (.holding held) →
    Stands state.rewards held
  /-- What is committed was granted once. -/
  granted : state.rewards.Pairwise fun reward later =>
    ¬ later.Is reward.referralId reward.side

namespace Once

variable {settings : Settings} {state : State} {sid : Nat} {held : Held}

theorem empty : Once .empty where
  alone := fun _ _ _ _ found => by cases found
  stands := fun _ _ found => by cases found
  granted := List.Pairwise.nil

/-- Fewer sessions holding beside the same rewards keep each held once. -/
theorem fewer
    (once : Once state)
    {after : State}
    (rewards : after.rewards = state.rewards)
    (earlier : ∀ {sid held},
      after.sessions.get? sid = some (.holding held) →
        state.sessions.get? sid = some (.holding held)) :
    Once after where
  alone := fun sid other held otherHeld found otherFound =>
    once.alone sid other held otherHeld (earlier found) (earlier otherFound)
  stands := by
    rw [rewards]
    exact fun sid held found => once.stands sid held (earlier found)
  granted := by
    rw [rewards]
    exact once.granted

theorem same
    (once : Once state)
    {after : State}
    (sessions : after.sessions = state.sessions)
    (rewards : after.rewards = state.rewards) :
    Once after :=
  once.fewer rewards fun found => sessions ▸ found

theorem waiting
    (once : Once state)
    (call : Call) :
    Once { state with
      sessions := state.sessions.set sid (.waiting call) } := by
  refine once.fewer rfl fun {other otherHeld} found => ?_
  rw [get?_set] at found
  split at found
  · cases found
  · exact found

/-- Putting a session back keeps each referral held once. -/
theorem put
    (once : Once state)
    (stands : Stands state.rewards held)
    (free : ∀ other otherHeld, other ≠ sid →
      state.sessions.get? other = some (.holding otherHeld) →
        otherHeld.referralId ≠ held.referralId) :
    Once (state.put sid held) := by
  have cases_ : ∀ other otherHeld,
      (state.put sid held).sessions.get? other = some (.holding otherHeld) →
      other = sid ∧ otherHeld = held ∨
        other ≠ sid ∧
          state.sessions.get? other = some (.holding otherHeld) := by
    intro other otherHeld found
    rw [State.put, get?_set] at found
    split at found
    · next same =>
        cases found
        exact .inl ⟨same, rfl⟩
    · next differs =>
        exact .inr ⟨differs, found⟩
  refine
    { alone := fun first second firstHeld secondHeld found otherFound
          equal => ?_
      stands := fun other otherHeld found => ?_
      granted := once.granted }
  · rcases cases_ _ _ found with ⟨rfl, rfl⟩ | ⟨differs, foundBefore⟩
    · rcases cases_ _ _ otherFound with ⟨rfl, rfl⟩ | ⟨differs, foundBefore⟩
      · rfl
      · exact absurd equal.symm (free _ _ differs foundBefore)
    · rcases cases_ _ _ otherFound with ⟨rfl, rfl⟩ | ⟨_, secondBefore⟩
      · exact absurd equal (free _ _ differs foundBefore)
      · exact once.alone _ _ _ _ foundBefore secondBefore equal
  · rcases cases_ _ _ found with ⟨rfl, rfl⟩ | ⟨_, foundBefore⟩
    · exact stands
    · exact once.stands _ _ foundBefore

theorem drop (once : Once state) (sid : Nat) : Once (state.drop sid) := by
  refine once.fewer rfl fun {other otherHeld} found => ?_
  rw [State.drop, get?_erase] at found
  split at found
  · cases found
  · exact found

/-- A commit pays each referral once. -/
theorem commit
    (once : Once state)
    (found : state.sessions.get? sid = some (.holding held)) :
    Once (state.commit sid held) := by
  have own := once.stands sid held found
  have earlier : ∀ other otherHeld,
      (state.commit sid held).sessions.get? other =
        some (.holding otherHeld) →
      other ≠ sid ∧
        state.sessions.get? other = some (.holding otherHeld) := by
    intro other otherHeld found
    rw [State.commit, get?_erase] at found
    split at found
    · cases found
    · next differs =>
        exact ⟨differs, found⟩
  refine
    { alone := fun first second firstHeld secondHeld found otherFound =>
        once.alone _ _ _ _ (earlier _ _ found).2 (earlier _ _ otherFound).2
      stands := fun other otherHeld otherFound => ?_
      granted := ?_ }
  · obtain ⟨differs, foundBefore⟩ := earlier _ _ otherFound
    have standing := once.stands other otherHeld foundBefore
    have elsewhere : ∀ reward ∈ held.rewards,
        reward.referralId ≠ otherHeld.referralId := by
      intro reward member same
      apply differs
      refine once.alone _ _ _ _ foundBefore found ?_
      rw [← same, own.named reward member]
    exact
      { named := standing.named
        first := standing.first
        early := standing.early
        once := standing.once
        apart := by
          intro reward member other committed same
          rcases mem_append.mp committed with before | new
          · exact standing.apart reward member other before same
          · apply elsewhere other new
            rw [same.1, standing.named reward member]
        absent := by
          intro turn absent other reached same
          rcases mem_append.mp reached with committed | written
          · rcases mem_append.mp committed with before | new
            · exact standing.absent turn absent other
                (mem_append_left _ before) same
            · exact elsewhere other new same.1
          · exact standing.absent turn absent other
              (mem_append_right _ written) same }
  · refine pairwise_append.mpr ⟨once.granted, ?_, ?_⟩
    · exact own.once.imp fun differ same => differ same.2.symm
    · intro reward committed later written same
      exact own.apart later written reward committed
        ⟨same.1.symm, same.2.symm⟩

/-- Taking a referral's lock keeps it held once. -/
theorem lock
    (once : Once state)
    (sid : Nat)
    (call : Call) :
    Once (state.lock sid call) := by
  unfold State.lock
  split
  · exact once.drop sid
  · next referralId referral selected =>
      split
      · exact once
      · next unlocked =>
          split
          · next referrerUserId kind referrer =>
              refine once.put ?_ fun other otherHeld _ found same => ?_
              · exact
                  { named := nofun
                    first := fun _ => rfl
                    early := fun _ => nofun
                    once := List.Pairwise.nil
                    apart := nofun
                    absent := by
                      intro turn absent
                      cases call <;> cases absent }
              · apply unlocked
                refine exists_eq_true.mpr
                  ⟨other, .holding otherHeld, found, ?_⟩
                exact decide_eq_true same
          · exact once.drop sid

/-- Every action keeps each referral held once. -/
theorem step
    (once : Once state)
    (settings : Settings)
    (action : Action) :
    Once (step settings state action) := by
  cases action with
  | arrive referralId referredUserId through =>
    dsimp only [Growth.step, attributeSignup]
    split
    · exact once
    · split
      · exact once
      · exact once.same rfl rfl
  | settle userId workspaceId =>
    exact once.same rfl rfl
  | start sid call =>
    dsimp only [Growth.step]
    split
    · exact once
    · exact once.waiting call
  | advance sid drawn =>
    dsimp only [Growth.step, State.advance]
    cases found : state.sessions.get? sid with
    | none =>
      exact once
    | some session =>
      cases session with
      | waiting call =>
        exact once.lock sid call
      | holding held =>
        have stands := once.stands sid held found
        dsimp only
        rcases advanceHeld_cases settings state sid held drawn with
          same | same | ⟨_, same⟩ | ⟨next, moved, same⟩ <;> rw [same]
        · exact once
        · exact once.drop sid
        · exact once.commit found
        · refine once.put (stands.moved moved) ?_
          intro other otherHeld differs otherFound equal
          apply differs
          refine once.alone _ _ _ _ otherFound found ?_
          rw [equal, moved.referralId]
  | fail sid =>
    exact once.drop sid

end Once

/-- Each reward that names an entitlement names one of as many bytes. -/
def Covered (rewards : List Reward) (entitlements : List Entitlement) : Prop :=
  ∀ reward ∈ rewards, ∀ id, reward.entitlementId = some id →
    ∃ row ∈ entitlements, row.id = id ∧ row.quotaBytes = reward.quotaBytes

/-- What a transaction wrote covers its rewards, and the one it is about to write. -/
structure Matches (settings : Settings) (held : Held) : Prop where
  written : Covered held.rewards held.entitlements
  next : ∀ turn id, held.phase = .recording turn (some id) →
    ∃ row ∈ held.entitlements, row.id = id ∧
      row.quotaBytes = settings.bonusOf held.call

/-- Every reward is covered, committed or not. -/
structure Entitled (settings : Settings) (state : State) : Prop where
  committed : Covered state.rewards state.entitlements
  open_ : ∀ sid held, state.sessions.get? sid = some (.holding held) →
    Matches settings held

namespace Entitled

variable {settings : Settings} {state : State} {sid : Nat} {held : Held}

/-- A statement that writes no entitlement leaves a transaction covered. -/
theorem rephased
    (covered : Matches settings held)
    {phase : Phase}
    (silent : ∀ turn id, phase ≠ .recording turn (some id)) :
    Matches settings { held with phase := phase } where
  written := covered.written
  next turn id recording := absurd recording (silent turn id)

theorem after
    (covered : Matches settings held)
    (turn : Turn) :
    Matches settings (held.after turn) := by
  cases turn with
  | referred =>
    exact rephased covered (fun _ _ => Phase.noConfusion)
  | referrer =>
    exact rephased covered (fun _ _ => Phase.noConfusion)

/-- Only what a session writes next has to be covered. -/
theorem put
    (entitled : Entitled settings state)
    (covered : Matches settings held) :
    Entitled settings (state.put sid held) where
  committed := entitled.committed
  open_ other otherHeld found := by
    rw [State.put, get?_set] at found
    split at found
    · obtain rfl := Session.holding.inj (Option.some.inj found)
      exact covered
    · exact entitled.open_ other otherHeld found

theorem drop
    (entitled : Entitled settings state)
    (sid : Nat) :
    Entitled settings (state.drop sid) where
  committed := entitled.committed
  open_ other otherHeld found := by
    rw [State.drop, get?_erase] at found
    split at found
    · cases found
    · exact entitled.open_ other otherHeld found

/-- What a session commits is covered by what it commits. -/
theorem commit
    (entitled : Entitled settings state)
    (found : state.sessions.get? sid = some (.holding held)) :
    Entitled settings (state.commit sid held) where
  committed reward member id names := by
    rcases mem_append.mp member with before | own
    · obtain ⟨row, there, same⟩ := entitled.committed reward before id names
      exact ⟨row, mem_append_left _ there, same⟩
    · obtain ⟨row, there, same⟩ :=
        (entitled.open_ sid held found).written reward own id names
      exact ⟨row, mem_append_right _ there, same⟩
  open_ := (entitled.drop sid).open_

theorem lock
    (entitled : Entitled settings state)
    (call : Call) :
    Entitled settings (state.lock sid call) := by
  unfold State.lock
  split
  · exact entitled.drop sid
  · split
    · exact entitled
    · split
      · refine entitled.put ⟨fun reward member => ?_, fun turn id recording => ?_⟩
        · cases member
        · cases call <;> cases recording
      · exact entitled.drop sid

/-- The entitlement of a `grantOnce` is of the bonus its reward will say. -/
theorem entitle
    (entitled : Entitled settings state)
    (covered : Matches settings held)
    (turn : Turn)
    (workspaceId drawn : Nat) :
    Entitled settings (state.entitle sid held turn workspaceId
      (settings.bonusOf held.call) drawn) := by
  dsimp only [State.entitle]
  split
  · exact entitled
  · split
    · exact entitled.put (rephased covered fun _ _ same => by cases same)
    · split
      · exact entitled.drop sid
      · refine entitled.put ⟨fun reward member id names => ?_,
          fun other id recording => ?_⟩
        · obtain ⟨row, there, same⟩ := covered.written reward member id names
          exact ⟨row, mem_append_left _ there, same⟩
        · cases recording
          exact ⟨_, mem_append_right _ (mem_singleton_self _), rfl, rfl⟩

/-- A session that advances pays only what it is entitled to. -/
theorem advanceHeld
    (entitled : Entitled settings state)
    (found : state.sessions.get? sid = some (.holding held))
    (drawn : Uuid) :
    Entitled settings (state.advanceHeld settings sid held drawn) := by
  have covered := entitled.open_ sid held found
  unfold State.advanceHeld
  cases phase : held.phase with
  | checking turn =>
    dsimp only
    split
    · exact entitled.put (after covered turn)
    · exact entitled.put (rephased covered (fun _ _ => Phase.noConfusion))
  | finding turn =>
    dsimp only
    split
    · exact entitled.put (after covered turn)
    · exact entitled.put (rephased covered (fun _ _ => Phase.noConfusion))
  | entitling turn workspaceId =>
    exact entitled.entitle covered turn workspaceId drawn
  | recording turn entitlementId =>
    have named : ∀ id, entitlementId = some id →
        ∃ row ∈ held.entitlements, row.id = id ∧
          row.quotaBytes = settings.bonusOf held.call :=
      fun id names => covered.next turn id (phase.trans (congrArg _ names))
    refine entitled.put (after ⟨fun reward member id names => ?_,
      fun other id recording => ?_⟩ turn)
    · rcases mem_append.mp member with before | own
      · exact covered.written reward before id names
      · obtain rfl := mem_singleton.mp own
        exact named id names
    · cases recording
      exact named id rfl
  | totalling =>
    dsimp only
    split
    · exact entitled.put (rephased covered (fun _ _ => Phase.noConfusion))
    · exact entitled.put (rephased covered (fun _ _ => Phase.noConfusion))
  | settled =>
    exact entitled.commit found

/-- Every action leaves the rewards entitled. -/
theorem step
    (entitled : Entitled settings state)
    (action : Action) :
    Entitled settings (step settings state action) := by
  cases action with
  | arrive referralId referredUserId through =>
    dsimp only [Growth.step, attributeSignup]
    split
    · exact entitled
    · split
      · exact entitled
      · exact ⟨entitled.committed, entitled.open_⟩
  | settle userId workspaceId =>
    exact ⟨entitled.committed, entitled.open_⟩
  | start sid call =>
    dsimp only [Growth.step]
    split
    · exact entitled
    · refine ⟨entitled.committed, fun other held found => ?_⟩
      rw [get?_set] at found
      split at found
      · cases found
      · exact entitled.open_ other held found
  | advance sid drawn =>
    dsimp only [Growth.step, State.advance]
    split
    · exact entitled
    · exact entitled.lock _
    · next held found =>
        exact entitled.advanceHeld found drawn
  | fail sid =>
    exact entitled.drop sid

end Entitled

/-- Every reward there is with an entitlement is of as many bytes as that has. -/
theorem rewards_entitled (settings : Settings) (actions : List Action) :
    Covered (run settings actions).rewards (run settings actions).entitlements := by
  have entitled : Entitled settings (run settings actions) :=
    Runs.keeps_of_step (Entitled settings)
      (fun state action entitled => entitled.step action) actions
      { committed := fun reward member => by cases member
        open_ := fun sid held found => by cases found }
  exact entitled.committed

/-- What a transaction has taken, or found room for, on a side. -/
def Session.claims
    (settings : Settings)
    (userId : Uuid)
    (side : RewardSide) : Session → Int
  | .waiting _ => 0
  | .holding held =>
    if held.phase.turn? = some .referrer then
      if held.referrerUserId = userId ∧ held.call.referrerSide = side then
        settings.bonusOf held.call
      else 0
    else
      grantedBytes held.rewards userId side

/-- What the transactions in flight have found room for on a side. -/
def State.claimed
    (state : State)
    (settings : Settings)
    (userId : Uuid)
    (side : RewardSide) : Int :=
  state.sessions.total fun _ session => session.claims settings userId side

/-- The transaction of a session that holds its row. -/
def State.holding? (state : State) (sid : Nat) : Option Held :=
  match state.sessions.get? sid with
  | some (.holding held) => some held
  | _ => none

/--
Whoever finds room under the cap finds room beside the transactions in flight
that found room before.
-/
def Roomy (settings : Settings) (state : State) : Action → Prop
  | .advance sid _ =>
    ∀ held ∈ state.holding? sid,
      held.phase = .totalling →
        grantedBytes state.rewards held.referrerUserId
            held.call.referrerSide +
          settings.bonusOf held.call ≤ settings.capOf held.call →
        grantedBytes state.rewards held.referrerUserId
            held.call.referrerSide +
          state.claimed settings held.referrerUserId
            held.call.referrerSide +
          settings.bonusOf held.call ≤ settings.capOf held.call
  | _ => True

instance Roomy.decidable (settings : Settings) (state : State) :
    ∀ action, Decidable (Roomy settings state action)
  | .advance sid _ =>
    inferInstanceAs (Decidable (∀ held ∈ state.holding? sid,
      held.phase = .totalling →
        grantedBytes state.rewards held.referrerUserId
            held.call.referrerSide +
          settings.bonusOf held.call ≤ settings.capOf held.call →
        grantedBytes state.rewards held.referrerUserId
            held.call.referrerSide +
          state.claimed settings held.referrerUserId
            held.call.referrerSide +
          settings.bonusOf held.call ≤ settings.capOf held.call))
  | .arrive _ _ _ => isTrue trivial
  | .settle _ _ => isTrue trivial
  | .start _ _ => isTrue trivial
  | .fail _ => isTrue trivial

/-- The caps hold, even when every transaction in flight commits. -/
def Capped (settings : Settings) (state : State) : Prop :=
  ∀ userId (call : Call),
    grantedBytes state.rewards userId call.referrerSide +
      state.claimed settings userId call.referrerSide ≤ settings.capOf call

section Claims

variable {settings : Settings} {state : State} {sid : Nat}
  {held next : Held} {userId : Uuid}

theorem capOf_congr
    {call other : Call}
    (side : call.referrerSide = other.referrerSide) :
    settings.capOf call = settings.capOf other ∧
      settings.bonusOf call = settings.bonusOf other := by
  cases call <;> cases other
  · exact ⟨rfl, rfl⟩
  · cases side
  · cases side
  · exact ⟨rfl, rfl⟩

theorem claims_nonneg (session : Session) (side : RewardSide) :
    0 ≤ session.claims settings userId side := by
  cases session with
  | waiting call =>
    exact Int.le_refl 0
  | holding held =>
    dsimp only [Session.claims]
    split
    · split
      · exact Int.natCast_nonneg _
      · exact Int.le_refl 0
    · exact Int.natCast_nonneg _

theorem Stands.nothing
    (stands : Stands state.rewards held)
    (open_ : held.phase ≠ .settled)
    (call : Call) :
    grantedBytes held.rewards userId call.referrerSide = 0 := by
  refine grantedBytes_eq_zero fun reward member => ?_
  rw [stands.early open_ reward member]
  exact (referrerSide_ne call).symm

theorem claims_of_turnless
    (noTurn : held.phase.turn? ≠ some .referrer)
    (side : RewardSide) :
    (Session.holding held).claims settings userId side =
      grantedBytes held.rewards userId side :=
  if_neg noTurn

theorem claims_of_turn
    (running : held.phase.turn? = some .referrer)
    (side : RewardSide) :
    (Session.holding held).claims settings userId side =
      if held.referrerUserId = userId ∧ held.call.referrerSide = side then
        (settings.bonusOf held.call : Int)
      else 0 :=
  if_pos running

theorem claims_after
    (turn : Turn)
    (side : RewardSide) :
    (Session.holding (held.after turn)).claims settings userId side =
      grantedBytes held.rewards userId side := by
  cases turn with
  | referred =>
    exact claims_of_turnless (fun running => by cases running) side
  | referrer =>
    exact claims_of_turnless (fun running => by cases running) side

/-- A session claims more only after totalling under the cap. -/
theorem claims_moved
    (userId : Uuid)
    (stands : Stands state.rewards held)
    (moved : Moved settings state held next)
    (call : Call) :
    (Session.holding next).claims settings userId call.referrerSide ≤
        (Session.holding held).claims settings userId call.referrerSide ∨
      held.phase = .totalling ∧
        grantedBytes (state.rewards ++ held.rewards) held.referrerUserId
            held.call.referrerSide +
          settings.bonusOf held.call ≤ settings.capOf held.call ∧
        (Session.holding next).claims settings userId call.referrerSide =
          if held.referrerUserId = userId ∧
              held.call.referrerSide = call.referrerSide then
            (settings.bonusOf held.call : Int)
          else 0 := by
  cases moved with
  | skip running =>
    next turn =>
    left
    rw [claims_after, stands.nothing (not_settled_of_turn running)]
    exact claims_nonneg _ _
  | on running runs missing =>
    left
    apply le_of_eq
    simp only [Session.claims, running, runs]
  | recorded running missing =>
    next turn entitlementId =>
    left
    rw [claims_after, grantedBytes_append,
      stands.nothing (not_settled_of_turn running), Nat.zero_add,
      grantedBytes_single]
    cases turn with
    | referred =>
      rw [if_neg fun same => referrerSide_ne call same.2.symm]
      exact claims_nonneg _ _
    | referrer =>
      rw [claims_of_turn running]
      by_cases same : held.referrerUserId = userId ∧
          held.call.referrerSide = call.referrerSide
      · rw [if_pos same]
        exact le_of_eq (congrArg Nat.cast (if_pos same))
      · rw [if_neg same]
        exact le_of_eq (congrArg Nat.cast (if_neg same))
  | room totalling fits =>
    exact .inr ⟨totalling, fits, claims_of_turn rfl _⟩
  | full totalling =>
    left
    have noTurn : held.phase.turn? ≠ some .referrer := by
      rw [totalling]
      exact fun running => by cases running
    rw [claims_of_turnless noTurn, claims_of_turnless]
    exact fun running => by cases running

theorem claimed_put
    (found : state.sessions.get? sid = some (.holding held))
    (side : RewardSide) :
    (state.put sid next).claimed settings userId side =
      state.claimed settings userId side -
        (Session.holding held).claims settings userId side +
        (Session.holding next).claims settings userId side := by
  rw [State.claimed, State.put, total_set, found]
  rfl

theorem claimed_drop_le (side : RewardSide) :
    (state.drop sid).claimed settings userId side ≤
      state.claimed settings userId side := by
  rw [State.claimed, State.drop, total_erase]
  cases state.sessions.get? sid with
  | none =>
    simp [State.claimed]
  | some session =>
    have nonneg : 0 ≤ session.claims settings userId side :=
      claims_nonneg session side
    simp only [State.claimed, Option.map_some, Option.getD_some]
    omega

end Claims

namespace Capped

variable {settings : Settings} {state : State} {sid : Nat}

theorem empty (settings : Settings) : Capped settings .empty := by
  intro userId call
  simp only [State.empty, grantedBytes_nil, State.claimed,
    total_empty, Nat.cast_zero, Int.add_zero]
  exact Int.natCast_nonneg _

theorem fewer
    (capped : Capped settings state)
    {after : State}
    (rewards : after.rewards = state.rewards)
    (claimed : ∀ userId side,
      after.claimed settings userId side ≤
        state.claimed settings userId side) :
    Capped settings after := by
  intro userId call
  have cap := capped userId call
  have less := claimed userId call.referrerSide
  rw [rewards]
  omega

theorem drop (capped : Capped settings state) (sid : Nat) :
    Capped settings (state.drop sid) :=
  capped.fewer rfl fun _ side => claimed_drop_le side

/-- A commit turns a claim into a reward of the same size. -/
theorem commit
    (capped : Capped settings state)
    {held : Held}
    (found : state.sessions.get? sid = some (.holding held))
    (settled : held.phase = .settled) :
    Capped settings (state.commit sid held) := by
  intro userId call
  have cap := capped userId call
  have claims : (Session.holding held).claims settings userId
      call.referrerSide =
        grantedBytes held.rewards userId call.referrerSide := by
    apply claims_of_turnless
    rw [settled]
    nofun
  have left_ : (state.commit sid held).claimed settings userId
      call.referrerSide =
        state.claimed settings userId call.referrerSide -
          (Session.holding held).claims settings userId
            call.referrerSide := by
    rw [State.claimed, State.commit, total_erase, found]
    rfl
  have granted : grantedBytes (state.commit sid held).rewards userId
      call.referrerSide =
        grantedBytes state.rewards userId call.referrerSide +
          grantedBytes held.rewards userId call.referrerSide :=
    grantedBytes_append
  rw [left_, granted, claims]
  omega

/-- A session that claims nothing keeps the caps. -/
theorem claimless
    (capped : Capped settings state)
    {session : Session}
    (none_ : ∀ userId (call : Call),
      session.claims settings userId call.referrerSide = 0) :
    Capped settings { state with
      sessions := state.sessions.set sid session } := by
  intro userId call
  have cap := capped userId call
  have claimed : State.claimed { state with
      sessions := state.sessions.set sid session } settings userId
        call.referrerSide ≤
      state.claimed settings userId call.referrerSide := by
    simp only [State.claimed, total_set, none_]
    cases state.sessions.get? sid with
    | none =>
      simp
    | some earlier =>
      have nonneg : 0 ≤ earlier.claims settings userId call.referrerSide :=
        claims_nonneg earlier call.referrerSide
      simp only [Option.map_some, Option.getD_some]
      omega
  have same : grantedBytes ({ state with
      sessions := state.sessions.set sid session } : State).rewards userId
        call.referrerSide =
      grantedBytes state.rewards userId call.referrerSide := rfl
  omega

theorem lock
    (capped : Capped settings state)
    (sid : Nat)
    (call : Call) :
    Capped settings (state.lock sid call) := by
  unfold State.lock
  split
  · exact capped.drop sid
  · next referralId referral selected =>
      split
      · exact capped
      · split
        · next referrerUserId kind referrer =>
            refine capped.claimless fun userId other => ?_
            have open_ : (State.heldOf call referralId referral
                referrerUserId).phase.turn? ≠ some .referrer := by
              cases call <;> exact fun running => by cases running
            exact claims_of_turnless open_ _
        · exact capped.drop sid

/-- A session that moves on where there is room keeps the caps. -/
theorem moved
    (capped : Capped settings state)
    {held next : Held}
    (found : state.sessions.get? sid = some (.holding held))
    (stands : Stands state.rewards held)
    {drawn : Uuid}
    (roomy : Roomy settings state (.advance sid drawn))
    (moved : Moved settings state held next) :
    Capped settings (state.put sid next) := by
  intro userId call
  have cap := capped userId call
  rw [claimed_put found]
  have rewards : (state.put sid next).rewards = state.rewards := rfl
  rw [rewards]
  have claims := claims_moved userId stands moved call
  rcases claims with less | ⟨totalling, fits, claims⟩
  · omega
  · have open_ : held.phase ≠ .settled := by
      rw [totalling]
      nofun
    have nothing : (Session.holding held).claims settings userId
        call.referrerSide = 0 := by
      rw [claims_of_turnless, stands.nothing open_]
      · rfl
      · rw [totalling]
        nofun
    rw [claims, nothing]
    split
    · next same =>
        obtain ⟨referrer, side⟩ := same
        rw [grantedBytes_append, stands.nothing open_] at fits
        have holding : state.holding? sid = some held := by
          rw [State.holding?, found]
        have room := roomy held holding totalling fits
        rw [referrer, side] at room
        have equal : settings.capOf held.call = settings.capOf call ∧ _ :=
          capOf_congr side
        rw [← equal.1]
        omega
    · omega

/-- Every action that leaves room keeps the caps. -/
theorem step
    (capped : Capped settings state)
    (once : Once state)
    {action : Action}
    (roomy : Roomy settings state action) :
    Capped settings (step settings state action) := by
  cases action with
  | arrive referralId referredUserId through =>
    dsimp only [Growth.step, attributeSignup]
    split
    · exact capped
    · split
      · exact capped
      · exact capped.fewer rfl fun _ _ => Int.le_refl _
  | settle userId workspaceId =>
    exact capped.fewer rfl fun _ _ => Int.le_refl _
  | start sid call =>
    dsimp only [Growth.step]
    split
    · exact capped
    · exact capped.claimless fun _ _ => rfl
  | advance sid drawn =>
    dsimp only [Growth.step, State.advance]
    cases found : state.sessions.get? sid with
    | none =>
      exact capped
    | some session =>
      cases session with
      | waiting call =>
        exact capped.lock sid call
      | holding held =>
        have stands := once.stands sid held found
        dsimp only
        rcases advanceHeld_cases settings state sid held drawn with
          same | same | ⟨settled, same⟩ | ⟨next, moved, same⟩ <;>
          rw [same]
        · exact capped
        · exact capped.drop sid
        · exact capped.commit found settled
        · exact capped.moved found stands roomy moved
  | fail sid =>
    exact capped.drop sid

end Capped

theorem length_granted_le
    {rewards : List Reward}
    (granted : rewards.Pairwise fun reward later =>
      ¬ later.Is reward.referralId reward.side)
    (referralId : Uuid)
    (side : RewardSide) :
    (rewards.filter fun reward =>
      reward.referralId = referralId ∧ reward.side = side).length ≤ 1 := by
  refine length_filter_le_one (granted.imp fun {reward later} differ both => ?_)
  have first := of_decide_eq_true both.1
  have second := of_decide_eq_true both.2
  rw [first.1, first.2] at differ
  exact differ second

/--
However the grants interleave, each referral grants each of its rewards at most
once; and where whoever finds room under a cap finds room beside those that
found room before, nobody is ever granted more for referrals than the cap.
-/
theorem rewards_within_caps
    (settings : Settings)
    (actions : List Action) :
    (∀ referralId side,
        ((run settings actions).rewards.filter fun reward =>
          reward.referralId = referralId ∧ reward.side = side).length ≤ 1) ∧
      (Runs.Each (step settings) (Roomy settings) .empty actions →
        ∀ userId,
          grantedBytes (run settings actions).rewards userId .referrer ≤
              settings.signupCapBytes ∧
            grantedBytes (run settings actions).rewards userId
                .referrerPaid ≤
              settings.paidCapBytes) := by
  refine ⟨fun referralId side => ?_, fun each userId => ?_⟩
  · have once : Once (run settings actions) :=
      Runs.keeps_of_step Once (fun state action once =>
        once.step settings action) actions Once.empty
    exact length_granted_le once.granted referralId side
  · have both : Once (run settings actions) ∧
        Capped settings (run settings actions) := by
      refine Runs.keeps_of_each
        (fun state => Once state ∧ Capped settings state) ?_ each
        ⟨Once.empty, Capped.empty settings⟩
      rintro state action roomy ⟨once, capped⟩
      exact ⟨once.step settings action, capped.step once roomy⟩
    have claimed : ∀ side,
        0 ≤ (run settings actions).claimed settings userId side :=
      fun side => total_nonneg fun _ session _ =>
        claims_nonneg session side
    have signup := both.2 userId (.signup 0)
    have paid := both.2 userId (.paid 0)
    have signupClaimed := claimed .referrer
    have paidClaimed := claimed .referrerPaid
    simp only [Call.referrerSide, Settings.capOf] at signup paid
    omega

section Overrun

/-- A cap of ten bytes, six for each invitation. -/
def overrunSettings : Settings where
  bonusBytes := 6
  signupCapBytes := 10
  paidBonusBytes := 6
  paidCapBytes := 10

/-- Two people arrive through person 9, and both grants are called. -/
def overrunStart : List Action :=
  [.settle 9 90,
    .arrive 1 11 (.user 9),
    .arrive 2 12 (.user 9),
    .start 1 (.signup 1),
    .start 2 (.signup 2)]

/-- A transaction runs some statements. -/
def advances (sid drawn count : Nat) : List Action :=
  List.replicate count (.advance sid drawn)

/-- Both transactions read the total before either commits. -/
def overrun : List Action :=
  overrunStart ++ advances 1 51 4 ++ advances 2 52 4 ++
    advances 1 51 5 ++ advances 2 52 5

/-- One transaction commits before the other reads the total. -/
def inTurn : List Action :=
  overrunStart ++ advances 1 51 9 ++ advances 2 52 9

/-- Person 9 is granted twelve bytes under a cap of ten. -/
theorem overrun_granted :
    ¬ ∀ settings actions userId,
        grantedBytes (run settings actions).rewards userId .referrer ≤
          settings.signupCapBytes := by
  intro all
  have cap := all overrunSettings overrun 9
  revert cap
  decide

/-- In turn, the second is granted nothing. -/
theorem rewards_within_caps_inTurn :
    grantedBytes (run overrunSettings inTurn).rewards 9 .referrer ≤ 10 := by
  have roomy : Runs.Each (step overrunSettings) (Roomy overrunSettings)
      .empty inTurn := by
    decide
  exact ((rewards_within_caps overrunSettings inTurn).2 roomy 9).1

end Overrun

end Growth

end HushOS
