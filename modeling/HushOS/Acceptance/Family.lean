import HushOS.Acceptance.Serving

namespace HushOS

open Toolkit

/-!
# Families with one group key

A history under its first group key alone passes when each roster follows the
one before (`Ruled`) and is signed as that one allows (`AllSigned`), whatever
the primitives.
-/

/-- Rosters each of which follows the one before, under the first group key. -/
def Ruled : Option Roster → AreaLedger → List Roster → Prop
  | _, _, [] => True
  | previous, ledger, next :: rest =>
    (∀ before ∈ previous, next.kind = before.kind) ∧
      next.groupKeyVersion = 1 ∧
      activeWith
          (rosterEntry (previous.getD next) next.signerUserId) .members =
        true ∧
      active (rosterEntry next next.signerUserId) = true ∧
      (∃ entry ∈ next.members, activeWith (some entry) .members = true) ∧
      (∀ before ∈ previous, dropsHolder before next = false) ∧
      (∀ before ∈ previous, checkEntries before next = .ok ()) ∧
      checkAreas ledger previous next = .ok () ∧
      Ruled (some next) (foldAreas ledger next) rest

/-- Rosters each with a copy signed by the authority of the one before. -/
def AllSigned
    (P : Primitives)
    (keys : List GroupPublicKey)
    (mlDsaKeys : OrderedMap String String) :
    Option Roster → List (Served Roster) → Prop
  | _, [] => True
  | previous, served :: rest =>
    (∃ copy ∈ served.copies,
      (∃ key ∈ keys[served.value.groupKeyVersion - 1]?,
        P.verifyGroup served.statement copy.signature key = true) ∧
      P.signedByMember (previous.getD served.value)
        served.value.signerUserId copy mlDsaKeys = true) ∧
      AllSigned P keys mlDsaKeys (some served.value) rest

section

variable {P : Primitives}

theorem settled_of_no_candidates
    {state : State}
    (none : state.candidates = .empty) :
    P.Settled state := by
  intro served member
  have listed := mem_candidates_of_current member
  simp [none, OrderedMap.listAt] at listed

/-- A path that keeps the rules and is signed passes without rotation. -/
theorem Ruled.passes
    {path : List (Served Roster)}
    {previous : Option Held}
    {state : State}
    (ruled :
      Ruled (previous.map Held.roster) state.areas (path.map Served.value))
    (signed :
      AllSigned P state.keys state.mlDsaKeys (previous.map Held.roster) path)
    (last : state.held.getLast? = previous)
    (kept : ∀ before ∈ previous, before.droppedHolder = false)
    (oneKey : ∃ key, state.keys = [key])
    (unverified : state.verified = [])
    (noCandidates : state.candidates = .empty) :
    ∃ after, P.Passes state path after ∧ after.keys = state.keys ∧
      after.verified = state.verified ∧
      after.keyMarks = state.keyMarks := by
  induction path generalizing previous state with
  | nil =>
    exact ⟨state, .settled (settled_of_no_candidates noCandidates), rfl,
      rfl, rfl⟩
  | cons served rest inductionHypothesis =>
    obtain ⟨kind, keyVersion, holder, stays, keeps, drops, entries, areas,
      laterRuled⟩ := ruled
    obtain ⟨copiesSigned, laterSigned⟩ := signed
    have holds :
        RosterHolds P state served.value served.statement
          (some served.copies) state.held.getLast? := {
      kind := by
        intro before isBefore
        rw [last] at isBefore
        exact kind before.roster (Option.mem_map_of_mem _ isBefore)
      reached := by
        obtain ⟨key, keys⟩ := oneKey
        rw [keyVersion, keys, List.length_singleton]
      current := by simp [State.verifiedAt, unverified]
      holder := by rw [last]; exact holder
      stays := stays
      keeps := keeps
      signed := by
        intro copies isCopies
        rw [Option.mem_def, Option.some.injEq] at isCopies
        subst isCopies
        rw [last]
        exact copiesSigned
      due := by
        intro before isBefore dropped
        rw [last] at isBefore
        simp [kept before isBefore] at dropped
      entries := by
        intro before isBefore
        rw [last] at isBefore
        exact entries before.roster (Option.mem_map_of_mem _ isBefore)
      areas := by
        rw [last]
        exact checkAreas_eq_ok.mp areas }
    have isHeld :
        (state.hold served).held.getLast? =
          some (heldAfter state.held.getLast? served) := by
      simp [State.hold]
    have held :
        (heldAfter state.held.getLast? served).droppedHolder = false := by
      rw [last, heldAfter]
      cases isPrevious : previous with
      | none =>
        rfl
      | some before =>
        have noDrop := drops before.roster (by simp [isPrevious])
        simpa using noDrop
    obtain ⟨after, passes, keys, verified, keyMarks⟩ :=
      @inductionHypothesis
        (some (heldAfter state.held.getLast? served)) (state.hold served)
        laterRuled laterSigned isHeld (by simpa using held) oneKey
        unverified noCandidates
    exact ⟨after,
      .hold served (settled_of_no_candidates noCandidates) holds passes,
      keys, verified, keyMarks⟩

end

end HushOS
