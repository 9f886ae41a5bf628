import HushOS.Acceptance.History
import HushOS.Acceptance.Marking
import HushOS.Sizes

namespace HushOS

open Toolkit List OrderedMap

/-!
# Serving a history

Acceptance takes every history that keeps the rules: rosters served once each,
one version after another (`Successive`), are linked as they stand, and what
passes and meets the marks is accepted (`Continues.accept`).
-/

/-- A served statement with the one copy served of it. -/
def Primitives.servedOnce
    (P : Primitives)
    (value : SignedGroupStatement → α)
    (copy : SignedGroupStatement) :
    Served α where
  value := value copy
  statement := copy.statement
  digest := P.digest copy.statement
  copies := [copy]

/-- Rosters served once each, one version after another above a bottom. -/
structure Successive
    (P : Primitives)
    (groupId : String)
    (bottom : Nat)
    (value : SignedGroupStatement → Roster)
    (signed : List SignedGroupStatement) : Prop where
  reads : ∀ copy ∈ signed, parseRoster copy.statement = .ok (value copy)
  ofGroup : ∀ copy ∈ signed, (value copy).groupId = groupId
  versions : ∀ {index : Nat} {copy : SignedGroupStatement},
    signed[index]? = some copy →
      (value copy).rosterVersion = bottom + index + 1
  named : ∀ {index : Nat} {before after : SignedGroupStatement},
    signed[index]? = some before → signed[index + 1]? = some after →
      (value after).previousRosterDigest = P.digest before.statement
  distinct : (signed.map fun copy => P.digest copy.statement).Nodup

section

variable {P : Primitives}

/-- Rosters in succession, each served once, form the line. -/
theorem Successive.line
    {groupId : String}
    {cached : Option Cached}
    {value : SignedGroupStatement → Roster}
    {signed : List SignedGroupStatement}
    (successive :
      Successive P groupId (cachedVersion cached) value signed)
    (continues : ∀ before ∈ cached, ∀ next ∈ signed.head?,
      before.rosterDigests.getLast? =
        some (value next).previousRosterDigest)
    (something : cachedVersion cached + signed.length ≠ 0) :
    ∃ rosters, P.byDigest signed parseRoster = .ok rosters ∧
      rosters.values = signed.map (P.servedOnce value) ∧
      LineHolds cached rosters
        { extending := cached
          bottom := cachedVersion cached
          head := cachedVersion cached + signed.length
          path := signed.map (P.servedOnce value) } := by
  obtain ⟨rosters, collected, entries⟩ :=
    P.byDigest_of_distinct successive.reads successive.distinct
  have values : rosters.values = signed.map (P.servedOnce value) := by
    rw [OrderedMap.values, entries, map_map]
    rfl
  refine ⟨rosters, collected, values, ?_⟩
  have line := @LineHolds.of_path cached rosters
    (signed.map (P.servedOnce value)) (by rw [values])
    (by
      intro index served isServed
      rw [getElem?_map, Option.map_eq_some_iff] at isServed
      obtain ⟨copy, isCopy, rfl⟩ := isServed
      exact successive.versions isCopy)
    (by
      intro index before after isBefore isAfter
      rw [getElem?_map, Option.map_eq_some_iff] at isBefore isAfter
      obtain ⟨beforeCopy, isBefore, rfl⟩ := isBefore
      obtain ⟨afterCopy, isAfter, rfl⟩ := isAfter
      rw [get?_eq_some, entries]
      refine mem_map.mpr
        ⟨beforeCopy, mem_of_getElem? isBefore, ?_⟩
      have named := successive.named isBefore isAfter
      simp only [Primitives.servedOnce, named])
    (by
      intro before isBefore next isNext
      rw [head?_map, Option.mem_def, Option.map_eq_some_iff] at isNext
      obtain ⟨copy, isCopy, rfl⟩ := isNext
      exact continues before isBefore copy isCopy)
    (by rwa [length_map])
  simpa using line

/-- A call whose pass holds and whose marks are met is accepted. -/
theorem Continues.accept
    {input : Accepting}
    {prepared : Prepared}
    {history : List Held}
    {after : State}
    (continues : Continues P input prepared history)
    (holds : PreparedHolds P input prepared)
    (passes :
      P.Passes (startState input prepared) prepared.line.path after)
    (met : MarksMet P input prepared after)
    {latest : Held}
    (isLatest : after.held.getLast? = some latest) :
    ∃ refused waiting digest,
      P.groupKeyDigest (after.keys.getLastD ⟨"", ""⟩) = .ok digest ∧
        P.accept input =
          .ok
            (P.bodyOf input prepared.rosters prepared.line after latest
                digest,
              { after with refused, waiting }) := by
  have keyLine := continues.keyLine_whole holds passes
  have present : prepared.whole input history ≠ [] := by
    intro empty
    rw [keyLine.getLast?_held, empty] at isLatest
    simp at isLatest
  have last : ∃ key, after.keys.getLast? = some key := by
    have aligned := keyLine.aligned
    refine Option.isSome_iff_exists.mp (getLast?_isSome.mpr ?_)
    exact ne_nil_of_length_pos (by omega)
  obtain ⟨key, isKey⟩ := last
  obtain ⟨digest, isDigest⟩ := (exists_groupKeyDigest_iff (P := P)).mpr
    (continues.valid_keys holds passes present key
      (mem_of_getLast? isKey))
  obtain ⟨refused, waiting, passed⟩ :=
    P.exists_pass_of_passes passes holds.readable
  have keyIs : after.keys.getLastD ⟨"", ""⟩ = key := by
    rw [getLastD_eq_getLast?, isKey, Option.getD_some]
  refine ⟨refused, waiting, digest, by rw [keyIs, isDigest], ?_⟩
  refine P.accept_eq_ok.mpr ⟨prepared, holds, passed, ?_, latest, isLatest,
    digest, by rw [keyIs, isDigest], rfl⟩
  rw [P.checkMarks_eq_ok] at *
  exact ⟨met.rosters, met.join, met.pairs, met.letIn, met.keys⟩

end

end HushOS
