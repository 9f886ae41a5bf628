import HushOS.Acceptance.Passing
import HushOS.Toolkit.KeyWindow

namespace HushOS

open Toolkit List

/-!
# The line of group keys

`KeyLine` is what holds of the group keys and the rosters at every point of a
pass, `history` being every roster from version 1 on and the state holding the
last of them.  What carries it is `latest`: a succession that may be taken is
tied to the last roster held.  A roster is held only once nothing may be taken,
so nothing tied to an earlier roster may be taken after it.
-/

/-- The rosters the verified successions are tied to. -/
def State.ties (state : State) : List Nat :=
  state.verified.map Verified.lastRosterVersion

/-- What holds of the group keys along a history. -/
structure KeyLine (P : Primitives) (history : List Held) (state : State) :
    Prop where
  suffix : state.held <:+ history
  present : history ≠ [] → state.held ≠ []
  versions : ∀ {index : Nat} {held : Held},
    history[index]? = some held → held.roster.rosterVersion = index + 1
  keyed : ∀ held ∈ history, 1 ≤ held.roster.groupKeyVersion
  aligned : state.verified.length + 1 = state.keys.length
  nodup : state.keys.Nodup
  sorted : state.ties.Pairwise (· ≤ ·)
  bounded : ∀ tie ∈ state.ties, 1 ≤ tie ∧ tie ≤ history.length
  windows : ∀ held ∈ history,
    held.roster.groupKeyVersion = keyAt state.ties held.roster.rosterVersion
  signed : ∀ held ∈ history,
    ∃ key, state.keys[held.roster.groupKeyVersion - 1]? = some key ∧
      ∃ signature, P.verifyGroup held.statement signature key = true
  drops : ∀ {index : Nat} {before after : Held},
    history[index]? = some before → history[index + 1]? = some after →
      after.droppedHolder = dropsHolder before.roster after.roster
  keeps : ∀ {first : Held},
    history[0]? = some first → first.droppedHolder = false
  due : ∀ {index : Nat} {before after : Held},
    history[index]? = some before → history[index + 1]? = some after →
      before.droppedHolder = true →
        before.roster.rosterVersion ∈ state.ties
  latest : ∀ served ∈ state.current, P.eligible state served = true →
    served.value.lastRosterVersion = history.length

/-- A path of parsed rosters, one version after another. -/
structure Linked (P : Primitives) (bottom : Nat)
    (path : List (Served Roster)) : Prop where
  versions : ∀ {index : Nat} {served : Served Roster},
    path[index]? = some served →
      served.value.rosterVersion = bottom + index + 1
  parsed : ∀ served ∈ path, parseRoster served.statement = .ok served.value
  digests : ∀ served ∈ path, served.digest = P.digest served.statement

/-- A path's rosters as the chain holds them after another, if any. -/
def holdAll : Option Held → List (Served Roster) → List Held
  | _, [] => []
  | previous, served :: rest =>
    heldAfter previous served ::
      holdAll (some (heldAfter previous served)) rest

@[simp] theorem length_holdAll
    (previous : Option Held)
    (path : List (Served Roster)) :
    (holdAll previous path).length = path.length := by
  induction path generalizing previous with
  | nil =>
    rfl
  | cons served rest inductionHypothesis =>
    simp [holdAll, inductionHypothesis]

@[simp] theorem map_roster_holdAll
    (previous : Option Held)
    (path : List (Served Roster)) :
    (holdAll previous path).map Held.roster = path.map Served.value := by
  induction path generalizing previous with
  | nil =>
    rfl
  | cons served rest inductionHypothesis =>
    simp [holdAll, inductionHypothesis, heldAfter]

@[simp] theorem map_digest_holdAll
    (previous : Option Held)
    (path : List (Served Roster)) :
    (holdAll previous path).map Held.digest = path.map Served.digest := by
  induction path generalizing previous with
  | nil =>
    rfl
  | cons served rest inductionHypothesis =>
    simp [holdAll, inductionHypothesis, heldAfter]

section

variable {P : Primitives}

variable {path : List (Served Roster)}

theorem Linked.tail
    {bottom : Nat}
    {served : Served Roster}
    (linked : Linked P bottom (served :: path)) :
    Linked P (bottom + 1) path where
  versions := by
    intro index other found
    have version :=
      linked.versions
        (show (served :: path)[index + 1]? = some other by simpa using found)
    omega
  parsed := fun other member => linked.parsed other (by simp [member])
  digests := fun other member => linked.digests other (by simp [member])

theorem Linked.head
    {bottom : Nat}
    {served : Served Roster}
    (linked : Linked P bottom (served :: path)) :
    served.value.Valid ∧ served.value.rosterVersion = bottom + 1 := by
  have parsed := linked.parsed served (by simp)
  rw [parseRoster_eq_ok, rosterStatement_eq_ok] at parsed
  exact ⟨parsed.1,
    linked.versions (show (served :: path)[0]? = some served from rfl)⟩

theorem Primitives.Passes.held
    {state after : State}
    (passes : P.Passes state path after) :
    after.held = state.held ++ holdAll state.held.getLast? path := by
  induction passes with
  | settled _ =>
    simp [holdAll]
  | note _ _ _ inductionHypothesis =>
    exact inductionHypothesis
  | take _ _ _ _ inductionHypothesis =>
    exact inductionHypothesis
  | hold served _ _ _ inductionHypothesis =>
    rw [inductionHypothesis]
    simp [State.hold, holdAll]

namespace KeyLine

variable {history : List Held} {state : State}

theorem getLast?_held
    (line : KeyLine P history state) :
    state.held.getLast? = history.getLast? := by
  obtain ⟨earlier, whole⟩ := line.suffix
  by_cases empty : state.held = []
  · have nothing : history = [] := by
      by_contra nonempty
      exact line.present nonempty empty
    rw [empty, nothing]
  · rw [← whole, getLast?_append_of_ne_nil earlier empty]

theorem mem_held
    (line : KeyLine P history state)
    {held : Held}
    (member : held ∈ state.held) :
    held ∈ history :=
  line.suffix.subset member

theorem version_le
    (line : KeyLine P history state)
    {held : Held}
    (member : held ∈ history) :
    held.roster.rosterVersion ≤ history.length := by
  obtain ⟨index, found⟩ := mem_iff_getElem?.mp member
  have version := line.versions found
  have inside := (List.getElem?_eq_some_iff.mp found).1
  omega

theorem start
    {firstKeys : GroupPublicKey}
    (keys : state.keys = [firstKeys])
    (verified : state.verified = [])
    (held : state.held = []) :
    KeyLine P [] state where
  suffix := by simp [held]
  present := by simp
  versions := by simp
  keyed := by simp
  aligned := by simp [keys, verified]
  nodup := by simp [keys]
  sorted := by simp [State.ties, verified]
  bounded := by simp [State.ties, verified]
  windows := by simp
  signed := by simp
  drops := by simp
  keeps := by simp
  due := by simp
  latest := by
    intro served _ eligible
    simp only [Primitives.eligible, Bool.and_eq_true,
      Primitives.isAdmissible_iff] at eligible
    obtain ⟨last, found, _⟩ := eligible.1.tied
    simp [held] at found

/--
A state with the same keys and successions that holds the last roster alone
continues the line: what may be taken there is tied to that roster.
-/
theorem resume
    {before state : State}
    {last : Held}
    (line : KeyLine P history before)
    (isLast : history.getLast? = some last)
    (keys : state.keys = before.keys)
    (verified : state.verified = before.verified)
    (held : state.held = [last]) :
    KeyLine P history state := by
  have sameTies : state.ties = before.ties := by
    simp [State.ties, verified]
  have nonempty : history ≠ [] := by
    intro empty
    simp [empty] at isLast
  exact {
    suffix := by
      rw [held]
      obtain ⟨earlier, whole⟩ := getLast?_eq_some_iff.mp isLast
      exact ⟨earlier, whole.symm⟩
    present := by simp [held]
    versions := line.versions
    keyed := line.keyed
    aligned := by rw [keys, verified, line.aligned]
    nodup := by rw [keys]; exact line.nodup
    sorted := by rw [sameTies]; exact line.sorted
    bounded := by rw [sameTies]; exact line.bounded
    windows := by rw [sameTies]; exact line.windows
    signed := by rw [keys]; exact line.signed
    drops := line.drops
    keeps := line.keeps
    due := by rw [sameTies]; exact line.due
    latest := by
      intro served _ eligible
      simp only [Primitives.eligible, Bool.and_eq_true,
        Primitives.isAdmissible_iff] at eligible
      obtain ⟨found, isFound, _⟩ := eligible.1.tied
      have tie := find?_some isFound
      have member := mem_of_find?_eq_some isFound
      rw [held, mem_singleton] at member
      subst member
      rw [getLast?_eq_getElem?] at isLast
      have version := line.versions isLast
      have positive : 0 < history.length :=
        length_pos_iff.mpr nonempty
      simp only [decide_eq_true_eq] at tie
      omega }

theorem note
    (line : KeyLine P history state)
    (refused : OrderedMap Nat CryptoError)
    (waiting : OrderedMap Nat (List Rival)) :
    KeyLine P history { state with refused, waiting } :=
  ⟨line.suffix, line.present, line.versions, line.keyed, line.aligned,
    line.nodup, line.sorted, line.bounded, line.windows, line.signed,
    line.drops, line.keeps, line.due, line.latest⟩

/-- Taking the eligible statement keeps the line of keys. -/
theorem take
    {history : List Held}
    {state : State}
    (line : KeyLine P history state)
    {served : Served GroupKeySuccession}
    (chosen : state.current.find? (P.eligible state) = some served) :
    KeyLine P history (state.take served) := by
  have eligible := find?_some chosen
  have tie :=
    line.latest served (mem_of_find?_eq_some chosen) eligible
  have holds : SuccessionHolds P state served state.keys.length := by
    simp only [Primitives.eligible, Bool.and_eq_true,
      Primitives.isAdmissible_iff] at eligible
    exact eligible.1
  have newTies :
      (state.take served).ties =
        state.ties ++ [served.value.lastRosterVersion] := by
    simp [State.ties, State.take]
  have nonempty : 1 ≤ history.length := by
    obtain ⟨last, found, _⟩ := holds.tied
    have member := line.mem_held (mem_of_find?_eq_some found)
    exact length_pos_of_mem member
  exact {
    suffix := line.suffix
    present := line.present
    versions := line.versions
    keyed := line.keyed
    aligned := by
      have aligned := line.aligned
      simp only [State.take, length_append, length_singleton]
      omega
    nodup := by
      simp only [State.take]
      rw [nodup_append]
      refine ⟨line.nodup, by simp, ?_⟩
      intro key keyMember other otherMember same
      rw [mem_singleton] at otherMember
      subst otherMember same
      exact holds.new keyMember
    sorted := by
      rw [newTies, pairwise_append]
      refine ⟨line.sorted, by simp, ?_⟩
      intro earlier earlierMember new newMember
      rw [mem_singleton] at newMember
      have earlierLe := (line.bounded earlier earlierMember).2
      omega
    bounded := by
      rw [newTies]
      intro anyTie member
      rcases mem_append.mp member with earlier | new
      · exact line.bounded anyTie earlier
      · rw [mem_singleton] at new
        omega
    windows := by
      intro held member
      rw [newTies, keyAt_concat_of_le]
      · exact line.windows held member
      · rw [tie]
        exact line.version_le member
    signed := by
      intro held member
      obtain ⟨key, found, signature⟩ := line.signed held member
      refine ⟨key, ?_, signature⟩
      exact getElem?_append_left
        (List.getElem?_eq_some_iff.mp found).1 ▸ found
    drops := line.drops
    keeps := line.keeps
    due := by
      intro index before after isBefore isAfter dropped
      rw [newTies]
      exact mem_append_left _ (line.due isBefore isAfter dropped)
    latest := by
      intro next _ nextEligible
      simp only [Primitives.eligible, Bool.and_eq_true,
        Primitives.isAdmissible_iff] at nextEligible
      have nextHolds := nextEligible.1
      have into :
          (state.take served).verifiedAt
              ((state.take served).keys.length - 1) =
            some
              { lastRosterVersion := served.value.lastRosterVersion
                digest := served.digest
                signerUserId := served.value.signerUserId } := by
        have aligned := line.aligned
        have place : state.keys.length - 1 = state.verified.length := by
          omega
        have nonzero : state.keys.length ≠ 0 := by
          omega
        simp [State.verifiedAt, State.take, place, nonzero]
      have notEarlier := nextHolds.ordered _ into
      obtain ⟨last, found, _⟩ := nextHolds.tied
      have atTie := find?_some found
      have lastLe := line.version_le
        (line.mem_held (mem_of_find?_eq_some found))
      simp only [decide_eq_true_eq] at atTie
      dsimp only at notEarlier
      omega }

/-- A roster that keeps the rules is signed under the newest key. -/
theorem keyVersion_eq
    (line : KeyLine P history state)
    {roster : Roster}
    (version : roster.rosterVersion = history.length + 1)
    (keyed : 1 ≤ roster.groupKeyVersion)
    {statement : Bytes}
    {copies : Option (List SignedGroupStatement)}
    {previous : Option Held}
    (holds : RosterHolds P state roster statement copies previous) :
    roster.groupKeyVersion = state.keys.length := by
  by_contra differs
  have reached := holds.reached
  have aligned := line.aligned
  have inside : roster.groupKeyVersion - 1 < state.verified.length := by
    omega
  have nonzero : roster.groupKeyVersion ≠ 0 := by
    omega
  have out :
      state.verifiedAt roster.groupKeyVersion =
        some (state.verified[roster.groupKeyVersion - 1]) := by
    simp [State.verifiedAt, nonzero, inside]
  have notReplaced := holds.current _ out
  have tied := line.bounded
    (state.verified[roster.groupKeyVersion - 1]).lastRosterVersion
    (mem_map_of_mem (getElem_mem inside))
  omega

/-- A held roster is found at its own version, the others as before. -/
theorem find?_hold
    (line : KeyLine P history state)
    {served : Served Roster}
    (version : served.value.rosterVersion = history.length + 1)
    (tie : Nat) :
    (state.hold served).held.find? (fun held =>
        held.roster.rosterVersion = tie) =
      if tie = history.length + 1 then
        some (heldAfter state.held.getLast? served)
      else
        state.held.find? fun held => held.roster.rosterVersion = tie := by
  simp only [State.hold, find?_append]
  split
  · next atNew =>
      have absent :
          state.held.find? (fun held =>
            held.roster.rosterVersion = tie) = none := by
        rw [find?_eq_none]
        intro held member
        have reached := line.version_le (line.mem_held member)
        simp only [decide_eq_true_eq]
        omega
      rw [absent]
      simp [heldAfter, version, atNew]
  · next elsewhere =>
      have notNew : history.length + 1 ≠ tie := fun same => elsewhere same.symm
      simp [heldAfter, version, notNew]

/-- Holding a roster with nothing left to establish keeps the line. -/
theorem hold
    {history : List Held}
    {state : State}
    (line : KeyLine P history state)
    {served : Served Roster}
    (nothing : P.Settled state)
    (version : served.value.rosterVersion = history.length + 1)
    (keyed : 1 ≤ served.value.groupKeyVersion)
    (holds :
      RosterHolds P state served.value served.statement (some served.copies)
        state.held.getLast?) :
    KeyLine P (history ++ [heldAfter state.held.getLast? served])
      (state.hold served) := by
  have current := line.keyVersion_eq version keyed holds
  have beforeNew : ∀ tie ∈ state.ties, tie < history.length + 1 := by
    intro tie member
    have reached := (line.bounded tie member).2
    omega
  -- An index past the history is the new roster's.
  have place {index : Nat} {held : Held}
      (found :
        (history ++ [heldAfter state.held.getLast? served])[index]? =
          some held) :
      history[index]? = some held ∨
        index = history.length ∧
          held = heldAfter state.held.getLast? served := by
    rw [getElem?_append] at found
    split at found
    · exact .inl found
    · next past =>
        rw [getElem?_singleton] at found
        split at found
        · next atEnd =>
            simp only [Option.some.injEq] at found
            exact .inr ⟨by omega, found.symm⟩
        · simp at found
  have beforeLast {index : Nat} {before after : Held}
      (isBefore :
        (history ++ [heldAfter state.held.getLast? served])[index]? =
          some before)
      (isAfter :
        (history ++ [heldAfter state.held.getLast? served])[index + 1]? =
          some after) :
      history[index]? = some before := by
    rcases place isBefore with inHistory | ⟨rfl, _⟩
    · exact inHistory
    · simp at isAfter
  have newAfter {index : Nat} {before : Held}
      (isBefore : history[index]? = some before)
      (last : index + 1 = history.length) :
      state.held.getLast? = some before := by
    rw [line.getLast?_held, getLast?_eq_getElem?, ← last]
    simpa using isBefore
  exact {
    suffix := by
      obtain ⟨earlier, whole⟩ := line.suffix
      exact ⟨earlier, by simp [State.hold, ← whole]⟩
    present := by simp [State.hold]
    versions := by
      intro index held found
      rcases place found with inHistory | ⟨rfl, rfl⟩
      · exact line.versions inHistory
      · exact version
    keyed := by
      intro held member
      rcases mem_append.mp member with inHistory | new
      · exact line.keyed held inHistory
      · rw [mem_singleton] at new
        subst new
        exact keyed
    aligned := line.aligned
    nodup := line.nodup
    sorted := line.sorted
    bounded := by
      intro tie member
      obtain ⟨positive, reached⟩ := line.bounded tie member
      rw [length_append, length_singleton]
      omega
    windows := by
      intro held member
      rcases mem_append.mp member with inHistory | new
      · exact line.windows held inHistory
      · rw [mem_singleton] at new
        subst new
        have aligned := line.aligned
        have all : (state.hold served).ties = state.ties := rfl
        have count : state.ties.length = state.verified.length := by
          simp [State.ties]
        simp only [heldAfter]
        rw [all, version, keyAt_of_forall_lt beforeNew, current]
        omega
    signed := by
      intro held member
      rcases mem_append.mp member with inHistory | new
      · exact line.signed held inHistory
      · rw [mem_singleton] at new
        subst new
        obtain ⟨copy, _, ⟨key, found, grouped⟩, _⟩ :=
          holds.signed served.copies rfl
        exact ⟨key, found, copy.signature, grouped⟩
    drops := by
      intro index before after isBefore isAfter
      have earlier := beforeLast isBefore isAfter
      rcases place isAfter with inHistory | ⟨last, rfl⟩
      · exact line.drops earlier inHistory
      · simp [heldAfter, newAfter earlier last]
    keeps := by
      intro first isFirst
      rcases place isFirst with inHistory | ⟨empty, rfl⟩
      · exact line.keeps inHistory
      · have noHistory : history = [] :=
          eq_nil_of_length_eq_zero empty.symm
        have noneHeld : state.held.getLast? = none := by
          rw [line.getLast?_held, noHistory]
          rfl
        simp [heldAfter, noneHeld]
    due := by
      intro index before after isBefore isAfter dropped
      have earlier := beforeLast isBefore isAfter
      rcases place isAfter with inHistory | ⟨last, rfl⟩
      · exact line.due earlier inHistory dropped
      · have tied := holds.due before (newAfter earlier last) dropped
        obtain ⟨out, isOut, tie⟩ := Option.map_eq_some_iff.mp tied
        have member : out ∈ state.verified := by
          unfold State.verifiedAt at isOut
          split at isOut
          · simp at isOut
          · exact mem_of_getElem? isOut
        rw [← tie]
        exact mem_map_of_mem member
    latest := by
      intro candidate member eligible
      by_contra notNew
      have elsewhere :
          candidate.value.lastRosterVersion ≠ history.length + 1 := by
        simpa using notNew
      -- Tied to an earlier roster, it could have been taken before this one.
      have before : P.eligible state candidate = true := by
        simp only [Primitives.eligible, Bool.and_eq_true,
          Primitives.isAdmissible_iff] at eligible ⊢
        refine ⟨?_, eligible.2⟩
        obtain ⟨groupId, replaces, new, ⟨last, found, tied⟩, ordered⟩ :=
          eligible.1
        rw [line.find?_hold version, if_neg elsewhere] at found
        exact ⟨groupId, replaces, new, ⟨last, found, tied⟩, ordered⟩
      have ineligible := nothing candidate member
      rw [before] at ineligible
      simp at ineligible }

/-- A whole pass keeps the line of keys. -/
theorem passes
    {history : List Held}
    {state after : State}
    {path : List (Served Roster)}
    (line : KeyLine P history state)
    (linked : Linked P history.length path)
    (passes : P.Passes state path after) :
    KeyLine P (history ++ holdAll state.held.getLast? path) after := by
  induction passes generalizing history with
  | settled _ =>
    simpa [holdAll] using line
  | note refused waiting _ inductionHypothesis =>
    exact inductionHypothesis (line.note refused waiting) linked
  | take served chosen _ _ inductionHypothesis =>
    exact inductionHypothesis (line.take chosen) linked
  | hold served nothing holds _ inductionHypothesis =>
    obtain ⟨valid, version⟩ := linked.head
    have held :=
      line.hold nothing version valid.keyVersion_pos holds
    have rest := inductionHypothesis held
      (by simpa using linked.tail)
    simpa [State.hold, holdAll] using rest

end KeyLine

end

end HushOS
