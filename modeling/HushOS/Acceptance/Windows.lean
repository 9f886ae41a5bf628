import HushOS.Acceptance.Toy

namespace HushOS

open Toolkit List

/-!
# Which group key is in force

Every roster of an accepted chain is under the key its successions' ties say,
whatever was cut where, and a removed holder's keys are replaced before any
roster follows the one that removed them.
-/

/-- The key version at a roster is read off the last roster versions. -/
theorem keyVersionAt_eq_keyAt
    (successions : List Verified)
    (version : Nat) :
    keyVersionAt successions version =
      keyAt (successions.map Verified.lastRosterVersion) version := by
  have counted : ∀ start,
      successions.foldl
          (fun keyVersion out =>
            if out.lastRosterVersion < version then keyVersion + 1
            else keyVersion) start =
        start + (successions.map Verified.lastRosterVersion).countP
          fun tie => tie < version := by
    induction successions with
    | nil =>
      simp
    | cons head rest inductionHypothesis =>
      intro start
      rw [foldl_cons, inductionHypothesis, map_cons,
        countP_cons]
      by_cases below : head.lastRosterVersion < version
      · simp only [below, ↓reduceIte, decide_true]
        omega
      · simp only [below, ↓reduceIte, decide_false, Bool.false_eq_true,
          Nat.add_zero]
  exact counted 1

theorem keyVersionAt_eq_countP
    (successions : List Verified)
    (version : Nat) :
    keyVersionAt successions version =
      1 + successions.countP fun out => out.lastRosterVersion < version := by
  rw [keyVersionAt_eq_keyAt, keyAt, countP_map]
  rfl

/-- The group keys in force along a chain, every roster on it being known. -/
structure KeysInForce
    (P : Primitives)
    (chain : ChainBody)
    (history : List Held) : Prop where
  digests : history.map Held.digest = chain.rosterDigests
  parsed : ∀ held ∈ history,
    held.digest = P.digest held.statement ∧
      parseRoster held.statement = .ok held.roster
  versions : ∀ {index : Nat} {held : Held},
    history[index]? = some held → held.roster.rosterVersion = index + 1
  windows : ∀ held ∈ history,
    held.roster.groupKeyVersion =
      1 + chain.cache.successions.countP fun out =>
        out.lastRosterVersion < held.roster.rosterVersion
  keyVersionAt_eq : ∀ held ∈ history,
    keyVersionAt chain.cache.successions held.roster.rosterVersion =
      held.roster.groupKeyVersion
  sorted :
    (chain.cache.successions.map Verified.lastRosterVersion).Pairwise (· ≤ ·)
  distinct : chain.groupKeys.Nodup
  signed : ∀ held ∈ history,
    ∃ key, chain.groupKeys[held.roster.groupKeyVersion - 1]? = some key ∧
      ∃ signature, P.verifyGroup held.statement signature key = true
  replaced : ∀ {index laterIndex : Nat} {before after later : Held}
      {userId : String},
    history[index]? = some before → history[index + 1]? = some after →
    activeWith (rosterEntry before.roster userId) .members = true →
    activeWith (rosterEntry after.roster userId) .members = false →
    history[laterIndex]? = some later → index + 1 < laterIndex →
      after.roster.groupKeyVersion < later.roster.groupKeyVersion ∧
        ∀ key ∈ chain.groupKeys.take after.roster.groupKeyVersion,
          chain.groupKeys[later.roster.groupKeyVersion - 1]? ≠ some key

section

variable {P : Primitives}

theorem dropsHolder_of_removed
    {previous next : Roster}
    {userId : String}
    (holder : activeWith (rosterEntry previous userId) .members = true)
    (removed : activeWith (rosterEntry next userId) .members = false) :
    dropsHolder previous next = true := by
  cases found : rosterEntry previous userId with
  | none =>
    simp [found, activeWith] at holder
  | some entry =>
    have isUser := userId_of_rosterEntry found
    refine dropsHolder_iff.mpr
      ⟨entry, mem_of_rosterEntry found, found ▸ holder, ?_⟩
    rw [isUser]
    exact removed

/-- A key used before a holder was dropped is not used after. -/
theorem KeyLine.keyVersion_lt
    {history : List Held}
    {state : State}
    (line : KeyLine P history state)
    {index laterIndex : Nat}
    {before after later : Held}
    (isBefore : history[index]? = some before)
    (isAfter : history[index + 1]? = some after)
    (drops : dropsHolder before.roster after.roster = true)
    (isLater : history[laterIndex]? = some later)
    (above : index + 1 < laterIndex) :
    after.roster.groupKeyVersion < later.roster.groupKeyVersion := by
  have dropped : after.droppedHolder = true := by
    rw [line.drops isBefore isAfter, drops]
  have inside := (List.getElem?_eq_some_iff.mp isLater).1
  obtain ⟨next, isNext⟩ : ∃ next, history[index + 1 + 1]? = some next :=
    ⟨_, getElem?_eq_getElem (by omega)⟩
  have tied := line.due isAfter isNext dropped
  rw [line.windows after (mem_of_getElem? isAfter),
    line.windows later (mem_of_getElem? isLater)]
  refine keyAt_lt_of_mem tied le_rfl ?_
  rw [line.versions isAfter, line.versions isLater]
  omega

theorem getElem?_ne_of_mem_take
    {keys : List GroupPublicKey}
    (distinct : keys.Nodup)
    {count place : Nat}
    (above : count ≤ place)
    {key : GroupPublicKey}
    (member : key ∈ keys.take count) :
    keys[place]? ≠ some key := by
  intro found
  obtain ⟨earlier, inside, isKey⟩ := mem_take_iff_getElem.mp member
  obtain ⟨bound, isPlace⟩ := List.getElem?_eq_some_iff.mp found
  have same := (List.Nodup.getElem_inj_iff distinct).mp
    (isKey.trans isPlace.symm)
  omega

/--
Every accepted chain has its group keys in force as its successions' ties say,
and no key a removed holder held signs a roster after the one that removed
them.
-/
theorem Primitives.History.keysInForce
    {chain : ChainBody}
    {history : List Held}
    (isHistory : P.History chain history) :
    KeysInForce P chain history := by
  have standing := isHistory.standing
  have line := standing.keyLine
  have successions :
      chain.cache.successions = chain.standing.verified := by
    rw [standing.cache]
    rfl
  have windows : ∀ held ∈ history,
      keyVersionAt chain.cache.successions held.roster.rosterVersion =
        held.roster.groupKeyVersion := by
    intro held member
    rw [keyVersionAt_eq_keyAt, successions, line.windows held member]
    rfl
  exact {
    digests := standing.digests
    parsed := fun held member =>
      ⟨standing.recorded.hashed held member,
        standing.recorded.parsed held member⟩
    versions := line.versions
    windows := by
      intro held member
      rw [← windows held member, keyVersionAt_eq_countP]
    keyVersionAt_eq := windows
    sorted := by
      rw [successions]
      exact line.sorted
    distinct := line.nodup
    signed := line.signed
    replaced := by
      intro index laterIndex before after later userId isBefore isAfter
        holder removed isLater above
      have drops := dropsHolder_of_removed holder removed
      have later_lt := line.keyVersion_lt isBefore isAfter drops isLater
        above
      refine ⟨later_lt, ?_⟩
      intro key member
      exact getElem?_ne_of_mem_take line.nodup (by omega) member }

/-- The sample family's keys are in force as its ties say. -/
theorem sampleFamily_keysInForce :
    ∃ chain history, (toy sampleFamily).History chain history ∧
      history.map Held.roster = sampleFamily ∧
      KeysInForce (toy sampleFamily) chain history := by
  obtain ⟨chain, state, accepted, held⟩ := sampleFamily_accepted
  have isHistory := Primitives.History.first rfl accepted
  exact ⟨chain, state.held, isHistory, held, isHistory.keysInForce⟩

end

end HushOS
