import HushOS.Rosters
import HushOS.Toolkit.Joined

namespace HushOS

open Toolkit List

/-!
# The entry rules

Entries never disappear, and each entry's `sinceVersion` is the version it
last changed at.  A roster drops a holder when it marks a `members` holder of
the one before as left, or takes the role away.
-/

/-- Whether `next` takes away a `members` holder of `previous`. -/
def dropsHolder (previous next : Roster) : Bool :=
  previous.members.any fun entry =>
    activeWith (some entry) .members &&
      !activeWith (rosterEntry next entry.userId) .members

/-- Whether two entries name the same keys. -/
def sameKeys (first second : RosterMember) : Bool :=
  first.keyVersion = second.keyVersion &&
    first.encryptionPublicKey = second.encryptionPublicKey &&
    first.signingPublicKey = second.signingPublicKey &&
    first.mlDsaPublicKeyDigest = second.mlDsaPublicKeyDigest &&
    first.kemPublicKeyDigest = second.kemPublicKeyDigest

/-- Whether two entries are alike, their versions aside. -/
def sameEntry (first second : RosterMember) : Bool :=
  sameKeys first second && first.status = second.status &&
    joined ',' (first.roles.map GroupRole.name) =
      joined ',' (second.roles.map GroupRole.name)

/-- The version an entry of the next roster last changed at. -/
def sinceVersionOf (previous next : Roster) (entry : RosterMember) : Nat :=
  match rosterEntry previous entry.userId with
  | some before =>
    if sameEntry before entry then before.sinceVersion
    else next.rosterVersion
  | none => next.rosterVersion

def NOT_FOLLOWING_ENTRIES : CryptoError :=
  ⟨"This member list does not follow from the one before."⟩

/-- Entries never disappear, and each names the version it changed at. -/
def checkEntries (previous next : Roster) : Except CryptoError Unit := do
  forEach
    (fun entry =>
      refuseIf (rosterEntry next entry.userId = none) NOT_FOLLOWING_ENTRIES)
    previous.members
  forEach
    (fun entry =>
      refuseIf (entry.sinceVersion ≠ sinceVersionOf previous next entry)
        NOT_FOLLOWING_ENTRIES)
    next.members

variable {entry : RosterMember} {roster : Roster}

theorem userId_of_rosterEntry
    {userId : String}
    (found : rosterEntry roster userId = some entry) :
    entry.userId = userId := by
  simpa using find?_some found

theorem mem_of_rosterEntry
    {userId : String}
    (found : rosterEntry roster userId = some entry) :
    entry ∈ roster.members :=
  mem_of_find?_eq_some found

theorem rosterEntry_of_mem
    (valid : roster.Valid)
    (member : entry ∈ roster.members) :
    rosterEntry roster entry.userId = some entry := by
  have sorted := valid.members_sorted
  rw [pairwise_map] at sorted
  unfold rosterEntry
  generalize roster.members = members at member sorted
  induction members with
  | nil =>
    simp at member
  | cons head rest inductionHypothesis =>
    rw [pairwise_cons] at sorted
    rcases mem_cons.mp member with rfl | later
    · simp
    · have differs : head.userId ≠ entry.userId := by
        intro same
        have before := sorted.1 entry later
        rw [same] at before
        exact Before.irrefl _ before
      simp [differs, inductionHypothesis later sorted.2]

theorem joinable_roles (roles : List GroupRole) :
    Joinable ',' (roles.map GroupRole.name) := by
  intro word member
  obtain ⟨role, _, rfl⟩ := mem_map.mp member
  cases role <;> decide

/-- Two entries are the same when every compared field is. -/
theorem sameEntry_iff
    {first second : RosterMember} :
    sameEntry first second = true ↔
      first.keyVersion = second.keyVersion ∧
        first.encryptionPublicKey = second.encryptionPublicKey ∧
        first.signingPublicKey = second.signingPublicKey ∧
        first.mlDsaPublicKeyDigest = second.mlDsaPublicKeyDigest ∧
        first.kemPublicKeyDigest = second.kemPublicKeyDigest ∧
        first.status = second.status ∧ first.roles = second.roles := by
  have sameRoles :
      joined ',' (first.roles.map GroupRole.name) =
          joined ',' (second.roles.map GroupRole.name) ↔
        first.roles = second.roles := by
    constructor
    · intro same
      exact map_injective_iff.mpr GroupRole.name_injective
        (joined_injective (joinable_roles _) (joinable_roles _) same)
    · intro same
      rw [same]
  simp only [sameEntry, sameKeys, Bool.and_eq_true, decide_eq_true_eq,
    sameRoles, and_assoc]

theorem checkEntries_eq_ok
    {previous next : Roster} :
    checkEntries previous next = .ok () ↔
      (∀ entry ∈ previous.members,
        rosterEntry next entry.userId ≠ none) ∧
        ∀ entry ∈ next.members,
          entry.sinceVersion = sinceVersionOf previous next entry := by
  simp only [checkEntries, bind_eq_ok, exists_unit, forEach_eq_ok,
    refuseIf_eq_ok, not_not, ne_eq]

theorem dropsHolder_iff
    {previous next : Roster} :
    dropsHolder previous next = true ↔
      ∃ entry ∈ previous.members,
        activeWith (some entry) .members = true ∧
          activeWith (rosterEntry next entry.userId) .members = false := by
  simp [dropsHolder]

end HushOS
