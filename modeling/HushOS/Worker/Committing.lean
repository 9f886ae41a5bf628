import HushOS.Acceptance.AreaHistory
import HushOS.Worker.Frames

namespace HushOS

open Toolkit List OrderedMap

namespace Worker

/-!
# Chains committed

Every chain a family commits goes on from the ones it committed before
(`Follows`).  A chain is held to the floor at its last roster and its last
group key.  Rosters name one another by digest, so the rest of the rosters
follows; group keys do not name one another, so the keys below the floor's
last are the one thing the ledger does not check (`KeepsKeys`).
-/

section

variable {P : Primitives}

/-- A chain that goes on from an earlier one of the same family. -/
structure Follows (earlier later : Accepted P) : Prop where
  version :
    earlier.val.roster.rosterVersion ≤ later.val.roster.rosterVersion
  keyVersion : earlier.val.groupKeyVersion ≤ later.val.groupKeyVersion
  digest :
    later.val.rosterDigests[earlier.val.roster.rosterVersion - 1]? =
      some earlier.val.rosterDigest
  key : later.val.groupKeys[earlier.val.groupKeyVersion - 1]? =
    some earlier.val.groupKey
  areas : ∀ {workspaceId : String} {before after : Nat},
    areaWriteVersion earlier workspaceId = some before →
    areaWriteVersion later workspaceId = some after → before ≤ after
  retired : ∀ {workspaceId : String},
    workspaceId ∈ earlier.val.retiredAreas →
      areaWriteVersion later workspaceId = none

/-- The statements of the rosters of a chain. -/
def Accepted.statements (chain : Accepted P) : Set Bytes :=
  { statement | ∃ history, P.History chain.val history ∧
      ∃ held ∈ history, held.statement = statement }

/-- A chain's lists end in the roster and the key it stands at. -/
structure Shaped (chain : ChainBody) : Prop where
  version : chain.rosterDigests.length = chain.roster.rosterVersion
  digest : chain.rosterDigests.getLast? = some chain.rosterDigest
  keyVersion : chain.groupKeys.length = chain.groupKeyVersion
  key : chain.groupKeys.getLast? = some chain.groupKey

/-- A chain whose rosters and group keys begin with an earlier one's. -/
structure Reaches (earlier later : Accepted P) : Prop where
  digests : earlier.val.rosterDigests <+: later.val.rosterDigests
  keys : earlier.val.groupKeys <+: later.val.groupKeys

/-- An accepted chain is shaped as its rosters say. -/
theorem Accepted.shaped (chain : Accepted P) : Shaped chain.val := by
  obtain ⟨chain, history, isHistory⟩ := chain
  have standing := isHistory.standing
  have lengths := congrArg List.length standing.digests
  rw [length_map] at lengths
  have isLast := standing.latest
  rw [getLast?_eq_getElem?] at isLast
  have version := standing.keyLine.versions isLast
  have nonempty : 0 < history.length :=
    length_pos_iff.mpr (ne_nil_of_mem
      (mem_of_getElem? isLast))
  have aligned := standing.keyLine.aligned
  have keyed : chain.groupKeys ≠ [] := by
    intro empty
    have keys : chain.standing.keys = chain.groupKeys := rfl
    rw [keys, empty] at aligned
    simp at aligned
  exact {
    version := by
      have stands : chain.latest.roster = chain.roster := rfl
      rw [← lengths, ← stands, version]
      omega
    digest := by
      rw [← standing.digests, getLast?_map, standing.latest]
      rfl
    keyVersion := standing.keyVersion.symm
    key := by
      rw [standing.key, getLastD_eq_getLast?]
      obtain ⟨key, isKey⟩ :=
        Option.isSome_iff_exists.mp (getLast?_isSome.mpr keyed)
      rw [isKey, Option.getD_some] }

variable {messages : Set Bytes} {earlier later : Accepted P}

/--
Histories that agree on one digest hold the same rosters up to it: each names
the one before, and no two of their statements share a hash.
-/
theorem Recorded.rosters_eq
    {groupId otherId : String}
    {first second : List Held}
    (firstRecorded : Recorded P groupId first)
    (secondRecorded : Recorded P otherId second)
    (apart : Set.InjOn P.sha256 messages)
    (firstStated : ∀ held ∈ first, held.statement ∈ messages)
    (secondStated : ∀ held ∈ second, held.statement ∈ messages)
    {index : Nat}
    {held other : Held}
    (isHeld : first[index]? = some held)
    (isOther : second[index]? = some other)
    (same : held.digest = other.digest) :
    (first.take (index + 1)).map
        (fun held => (held.roster, held.digest)) =
      (second.take (index + 1)).map
        (fun held => (held.roster, held.digest)) := by
  have agree {held other : Held}
      (member : held ∈ first)
      (otherMember : other ∈ second)
      (same : held.digest = other.digest) :
      held.roster = other.roster := by
    rw [firstRecorded.hashed held member,
      secondRecorded.hashed other otherMember] at same
    have statements := apart (firstStated held member)
      (secondStated other otherMember) (Base64url.encode_injective same)
    have parsed := firstRecorded.parsed held member
    rw [statements, secondRecorded.parsed other otherMember] at parsed
    exact (Except.ok.inj parsed).symm
  induction index generalizing held other with
  | zero =>
    have rosters := agree (mem_of_getElem? isHeld)
      (mem_of_getElem? isOther) same
    rw [take_add_one, take_add_one, isHeld, isOther]
    simp [rosters, same]
  | succ index inductionHypothesis =>
    have rosters := agree (mem_of_getElem? isHeld)
      (mem_of_getElem? isOther) same
    obtain ⟨before, isBefore⟩ : ∃ before, first[index]? = some before := by
      have inside := (List.getElem?_eq_some_iff.mp isHeld).1
      exact ⟨_, getElem?_eq_getElem (by omega)⟩
    obtain ⟨otherBefore, isOtherBefore⟩ :
        ∃ before, second[index]? = some before := by
      have inside := (List.getElem?_eq_some_iff.mp isOther).1
      exact ⟨_, getElem?_eq_getElem (by omega)⟩
    have named : before.digest = otherBefore.digest := by
      rw [← firstRecorded.linked isBefore isHeld,
        ← secondRecorded.linked isOtherBefore isOther, rosters]
    have earlier := inductionHypothesis isBefore isOtherBefore named
    have grown {items : List Held} {item : Held}
        (found : items[index + 1]? = some item) :
        items.take (index + 1 + 1) = items.take (index + 1) ++ [item] := by
      rw [take_add_one, found]
      rfl
    rw [grown isHeld, grown isOther, map_append, map_append,
      earlier]
    simp [rosters, same]

/-- A chain through the roster and key held is not overtaken. -/
theorem overtakenBy_eq_none
    {held chain : Accepted P} :
    overtakenBy held chain = none ↔
      held.val.roster.rosterVersion ≤ chain.val.roster.rosterVersion ∧
        chain.val.rosterDigests[held.val.roster.rosterVersion - 1]? =
          some held.val.rosterDigest ∧
        held.val.groupKeyVersion ≤ chain.val.groupKeyVersion ∧
        chain.val.groupKeys[held.val.groupKeyVersion - 1]? =
          some held.val.groupKey := by
  unfold overtakenBy
  split
  · next shorter =>
      simp only [reduceCtorEq, false_iff, not_and]
      intro reaches
      omega
  · next reaches =>
      split
      · next split_ =>
          simp [split_]
      · next through =>
          rw [not_not] at through
          split
          · next fewer =>
              simp only [reduceCtorEq, false_iff, not_and]
              intro _ _ enough
              omega
          · next enough =>
              simp only [Nat.not_lt] at reaches enough
              simp only [reaches, through, enough, true_and]
              split
              · next absent =>
                  simp [absent]
              · next key isKey =>
                  simp [isKey]

/-- A chain through an earlier one's digest has that one's rosters. -/
theorem rosters_agree
    {history laterHistory : List Held}
    (isHistory : P.History earlier.val history)
    (isLater : P.History later.val laterHistory)
    (apart : Set.InjOn P.sha256 messages)
    (stated : earlier.statements ⊆ messages)
    (laterStated : later.statements ⊆ messages)
    (through :
      later.val.rosterDigests[earlier.val.roster.rosterVersion - 1]? =
        some earlier.val.rosterDigest) :
    history.map (fun held => (held.roster, held.digest)) =
      (laterHistory.take history.length).map
        (fun held => (held.roster, held.digest)) := by
  have shaped := earlier.shaped
  have digests := isHistory.standing.digests
  have lengths := congrArg List.length digests
  rw [length_map] at lengths
  have isLast := getElem?_of_getLast? shaped.version shaped.digest
  rw [← digests, getElem?_map, Option.map_eq_some_iff] at isLast
  obtain ⟨held, isHeld, isDigest⟩ := isLast
  rw [← isLater.standing.digests, getElem?_map,
    Option.map_eq_some_iff] at through
  obtain ⟨other, isOther, isSame⟩ := through
  have same := Recorded.rosters_eq isHistory.standing.recorded
    isLater.standing.recorded apart
    (fun held member => stated ⟨history, isHistory, held, member, rfl⟩)
    (fun held member =>
      laterStated ⟨laterHistory, isLater, held, member, rfl⟩)
    isHeld isOther (isDigest.trans isSame.symm)
  have whole : earlier.val.roster.rosterVersion - 1 + 1 =
      history.length := by
    have inside := (List.getElem?_eq_some_iff.mp isHeld).1
    rw [← shaped.version, ← lengths]
    omega
  rw [whole, take_length] at same
  exact same

/-- A chain through an earlier one's digest has its rows first. -/
theorem rows_begin
    {history laterHistory : List Held}
    (isHistory : P.History earlier.val history)
    (isLater : P.History later.val laterHistory)
    (apart : Set.InjOn P.sha256 messages)
    (stated : earlier.statements ⊆ messages)
    (laterStated : later.statements ⊆ messages)
    (through :
      later.val.rosterDigests[earlier.val.roster.rosterVersion - 1]? =
        some earlier.val.rosterDigest) :
    rowsOf laterHistory =
      rowsOf history ++ rowsOf (laterHistory.drop history.length) := by
  have same := rosters_agree isHistory isLater apart stated laterStated
    through
  have rosters := congrArg (List.map Prod.fst) same
  rw [map_map, map_map] at rosters
  have first : rowsOf history =
      rowsOf (laterHistory.take history.length) := by
    have areas := congrArg
      (List.flatMap fun roster : Roster => roster.areas) rosters
    simp only [flatMap_map, Function.comp_apply] at areas
    exact areas
  rw [first, rowsOf_take_append_drop]

/-- A chain through an earlier one's digest has its digests first. -/
theorem digests_begin
    (apart : Set.InjOn P.sha256 messages)
    (stated : earlier.statements ⊆ messages)
    (laterStated : later.statements ⊆ messages)
    (through :
      later.val.rosterDigests[earlier.val.roster.rosterVersion - 1]? =
        some earlier.val.rosterDigest) :
    earlier.val.rosterDigests <+: later.val.rosterDigests := by
  obtain ⟨history, isHistory⟩ := earlier.property
  obtain ⟨laterHistory, isLater⟩ := later.property
  have same := rosters_agree isHistory isLater apart stated laterStated
    through
  have digests := congrArg (List.map Prod.snd) same
  rw [map_map, map_map] at digests
  have firstDigests : history.map (Prod.snd ∘ fun held : Held =>
      (held.roster, held.digest)) = earlier.val.rosterDigests :=
    isHistory.standing.digests
  have laterDigests : laterHistory.map (Prod.snd ∘ fun held : Held =>
      (held.roster, held.digest)) = later.val.rosterDigests :=
    isLater.standing.digests
  rw [map_take, firstDigests, laterDigests] at digests
  rw [digests]
  exact take_prefix _ _

namespace Reaches

theorem refl (chain : Accepted P) : Reaches chain chain :=
  ⟨prefix_rfl, prefix_rfl⟩

theorem trans
    {first second third : Accepted P}
    (before : Reaches first second)
    (after : Reaches second third) :
    Reaches first third :=
  ⟨before.digests.trans after.digests, before.keys.trans after.keys⟩

variable {earlier later : Accepted P}

theorem symm_of_le
    (reaches : Reaches earlier later)
    (version :
      later.val.roster.rosterVersion ≤ earlier.val.roster.rosterVersion)
    (keyVersion : later.val.groupKeyVersion ≤ earlier.val.groupKeyVersion) :
    Reaches later earlier := by
  rw [← earlier.shaped.version, ← later.shaped.version] at version
  rw [← earlier.shaped.keyVersion, ← later.shaped.keyVersion] at keyVersion
  have digests := reaches.digests.eq_of_length_le version
  have keys := reaches.keys.eq_of_length_le keyVersion
  exact ⟨digests ▸ prefix_rfl, keys ▸ prefix_rfl⟩

/-- An area's write version never falls along a chain. -/
theorem areaWriteVersion_le
    {history laterHistory : List Held}
    (isHistory : P.History earlier.val history)
    (isLater : P.History later.val laterHistory)
    {rest : List RosterArea}
    (rows : rowsOf laterHistory = rowsOf history ++ rest)
    {workspaceId : String}
    {before after : Nat}
    (isBefore : areaWriteVersion earlier workspaceId = some before)
    (isAfter : areaWriteVersion later workspaceId = some after) :
    before ≤ after := by
  have listed {chain : Accepted P} {history : List Held} {version : Nat}
      (isHistory : P.History chain.val history)
      (isVersion : areaWriteVersion chain workspaceId = some version) :
      version = (keyRowsOf workspaceId (rowsOf history)).length := by
    unfold areaWriteVersion at isVersion
    split at isVersion
    · simp at isVersion
    · rw [Option.map_eq_some_iff] at isVersion
      obtain ⟨commitments, areListed, rfl⟩ := isVersion
      unfold areaCommitments at areListed
      split at areListed
      · rw [← listAt_of_get? areListed,
          isHistory.areasInOrder.keys, length_map]
      · simp at areListed
  rw [listed isHistory isBefore, listed isLater isAfter, rows,
    keyRowsOf_append, length_append]
  exact Nat.le_add_right _ _

/-- A chain that reaches on from another follows it. -/
theorem follows
    (reaches : Reaches earlier later)
    {messages : Set Bytes}
    (apart : Set.InjOn P.sha256 messages)
    (stated : earlier.statements ⊆ messages)
    (laterStated : later.statements ⊆ messages) :
    Follows earlier later := by
  have shaped := earlier.shaped
  have laterShaped := later.shaped
  have digest :
      later.val.rosterDigests[earlier.val.roster.rosterVersion - 1]? =
        some earlier.val.rosterDigest :=
    getElem?_of_begins reaches.digests
      (getElem?_of_getLast? shaped.version shaped.digest)
  obtain ⟨history, isHistory⟩ := earlier.property
  obtain ⟨laterHistory, isLater⟩ := later.property
  have rows := rows_begin isHistory isLater apart stated laterStated digest
  exact {
    version := by
      rw [← shaped.version, ← laterShaped.version]
      exact reaches.digests.length_le
    keyVersion := by
      rw [← shaped.keyVersion, ← laterShaped.keyVersion]
      exact reaches.keys.length_le
    digest := digest
    key := getElem?_of_begins reaches.keys
      (getElem?_of_getLast? shaped.keyVersion shaped.key)
    areas := areaWriteVersion_le isHistory isLater rows
    retired := by
      intro workspaceId isRetired
      have order := isHistory.areasInOrder
      obtain ⟨row, member, closes, isArea⟩ :=
        (order.retired workspaceId).mp isRetired
      have laterRetired : workspaceId ∈ later.val.retiredAreas := by
        rw [isLater.areasInOrder.retired, rows]
        exact ⟨row, mem_append_left _ member, closes, isArea⟩
      simp [areaWriteVersion, laterRetired] }

end Reaches

end

variable {V : Vault}

/-- Whether an operation forgets a family. -/
def Op.forgets (groupId : String) : Op V → Bool
  | .forgetGroup forgotten => forgotten = groupId
  | .forgetAllGroups => true
  | _ => false

/-- The statements of the chains a run is given to commit for a family. -/
def statementsOf (groupId : String) (ops : List (Op V)) : Set Bytes :=
  { statement | ∃ chain, Op.commit chain ∈ ops ∧
      chain.val.groupId = groupId ∧ statement ∈ chain.statements }

namespace Ledger

/-- The chain an operation commits for a family, if it does. -/
def commits (groupId : String) (ledger : Ledger V) : Op V →
    List (Accepted V.toPrimitives)
  | .commit chain =>
    match ledger.commit chain with
    | .ok _ => if chain.val.groupId = groupId then [chain] else []
    | .error _ => []
  | _ => []

/-- The chains a run commits for a family, in order. -/
def committed (groupId : String) :
    Ledger V → List (Op V) → List (Accepted V.toPrimitives)
  | _, [] => []
  | ledger, op :: rest =>
    ledger.commits groupId op ++ committed groupId (ledger.step op) rest

variable {chain : Accepted V.toPrimitives} {groupId : String} {ledger : Ledger V}
  {op : Op V}

theorem mem_commits
    (member : chain ∈ ledger.commits groupId op) :
    op = .commit chain ∧ chain.val.groupId = groupId := by
  cases op with
  | commit given =>
    simp only [commits] at member
    split at member
    · split at member
      · next ofGroup =>
          rw [mem_singleton] at member
          subst member
          exact ⟨rfl, ofGroup⟩
      · simp at member
    · simp at member
  | _ =>
    simp [commits] at member

theorem mem_committed
    {ops : List (Op V)}
    (member : chain ∈ committed groupId ledger ops) :
    Op.commit chain ∈ ops ∧ chain.val.groupId = groupId := by
  induction ops generalizing ledger with
  | nil =>
    simp [committed] at member
  | cons op rest inductionHypothesis =>
    rcases mem_append.mp member with first | later
    · obtain ⟨rfl, ofGroup⟩ := mem_commits first
      exact ⟨by simp, ofGroup⟩
    · obtain ⟨inRest, ofGroup⟩ := inductionHypothesis later
      exact ⟨by simp [inRest], ofGroup⟩

/--
Whether every chain the family's floor lets pass lists, below the floor's last
key, the floor's own group keys.
-/
def KeepsKeys (groupId : String) : Ledger V → List (Op V) → Prop
  | _, [] => True
  | ledger, op :: rest =>
    (∀ chain, op = .commit chain → chain.val.groupId = groupId →
      ∀ floor ∈ ledger.floors.get? groupId,
        overtakenBy floor chain = none →
          floor.val.groupKeys <+: chain.val.groupKeys) ∧
      KeepsKeys groupId (ledger.step op) rest

/-- What holds of a family's floor and chain after chains were committed. -/
structure Floored
    (groupId : String)
    (past : List (Accepted V.toPrimitives))
    (ledger : Ledger V) : Prop where
  empty : ledger.floors.get? groupId = none →
    past = [] ∧ ledger.chains.get? groupId = none
  floor : ∀ floor ∈ ledger.floors.get? groupId,
    floor ∈ past ∧ ∀ chain ∈ past, Reaches chain floor
  chain : ∀ chain ∈ ledger.chains.get? groupId,
    chain ∈ past ∧ ∀ earlier ∈ past, Reaches earlier chain

/-- A commit passes the floor and moves it only forward. -/
theorem commit_eq_ok
    {ledger after : Ledger V}
    (committed : ledger.commit chain = .ok after) :
    (∀ floor ∈ ledger.floors.get? chain.val.groupId,
      overtakenBy floor chain = none) ∧
      after.chains = ledger.chains.set chain.val.groupId chain ∧
      after.floors =
        if movesFloor (ledger.floors.get? chain.val.groupId) chain then
          ledger.floors.set chain.val.groupId chain
        else
          ledger.floors := by
  have rest := commit_rest committed
  refine ⟨?_, congrArg Ledger.chains rest, congrArg Ledger.floors rest⟩
  simp only [commit, bind_eq_ok, exists_unit, Except.ok.injEq] at committed
  obtain ⟨checked, _⟩ := committed
  intro floor isFloor
  rw [checkCommit, forEach_eq_ok] at checked
  have passed := checked (ledger.floors.get? chain.val.groupId) (by simp)
  rw [Option.mem_def.mp isFloor, Option.bind_some] at passed
  split at passed
  · next passes =>
      exact passes
  · simp at passed

/-- A chain beyond floor and held chain is committed. -/
theorem exists_commit
    {ledger : Ledger V}
    {chain : Accepted V.toPrimitives}
    (throughFloor : ∀ floor ∈ ledger.floors.get? chain.val.groupId,
      overtakenBy floor chain = none)
    (throughChain : ∀ held ∈ ledger.chains.get? chain.val.groupId,
      overtakenBy held chain = none) :
    ∃ after, ledger.commit chain = .ok after := by
  have passes (held : Option (Accepted V.toPrimitives))
      (through : ∀ one ∈ held, overtakenBy one chain = none) :
      (held.bind fun held => overtakenBy held chain) = none := by
    cases held with
    | none =>
      rfl
    | some one =>
      exact through one rfl
  have checked : ledger.checkCommit chain = .ok () := by
    rw [checkCommit, forEach_eq_ok]
    intro held member
    simp only [mem_cons, not_mem_nil, or_false] at member
    rcases member with rfl | rfl
    · rw [passes _ throughFloor]
    · rw [passes _ throughChain]
  exact ⟨_, by rw [commit, checked]; rfl⟩

/-- Forgetting a group leaves the others' floors and chains. -/
theorem get?_forgetGroup
    (ledger : Ledger V)
    {groupId forgotten : String}
    (other : groupId ≠ forgotten) :
    (ledger.forgetGroup forgotten).floors.get? groupId =
        ledger.floors.get? groupId ∧
      (ledger.forgetGroup forgotten).chains.get? groupId =
        ledger.chains.get? groupId := by
  have dropped := SameFamilies.foldl
    (fun ledger : Ledger V => ledger.sameFamilies_dropWorkspace)
    ((ledger.kept forgotten).areasOf forgotten) (ledger.kept forgotten)
  have floors : (ledger.forgetGroup forgotten).floors =
      ledger.floors.erase forgotten :=
    congrArg (fun floors => OrderedMap.erase floors forgotten) dropped.floors
  have chains : (ledger.forgetGroup forgotten).chains =
      ledger.chains.erase forgotten :=
    congrArg (fun chains => OrderedMap.erase chains forgotten) dropped.chains
  rw [floors, chains, get?_erase, get?_erase,
    if_neg other, if_neg other]
  exact ⟨rfl, rfl⟩

/-- Opening an area leaves floors and chains. -/
theorem chains_openArea
    (ledger : Ledger V)
    (groupId workspaceId idSeed : String)
    (version : Nat)
    (key : Key)
    (served : Nat) :
    (orUnchanged ledger (ledger.openArea groupId workspaceId idSeed version
        key served)).floors = ledger.floors ∧
      (orUnchanged ledger (ledger.openArea groupId workspaceId idSeed version
        key served)).chains = ledger.chains := by
  cases isOpened : ledger.openArea groupId workspaceId idSeed version key
      served with
  | error reason =>
    exact ⟨rfl, rfl⟩
  | ok found =>
    obtain ⟨block, after⟩ := found
    simp only [openArea, bind_eq_ok] at isOpened
    obtain ⟨_, _, isOpened⟩ := isOpened
    split at isOpened
    · simp at isOpened
    · simp only [bind_eq_ok] at isOpened
      obtain ⟨_, _, _, _, _, _, isOpened⟩ := isOpened
      split at isOpened
      · simp at isOpened
      · simp only [bind_eq_ok, Except.ok.injEq] at isOpened
        obtain ⟨_, _, _, _, _, _, isOpened⟩ := isOpened
        cases isOpened
        exact ⟨rfl, rfl⟩

/-- Only commits move a group's floor, and only they set its chain. -/
theorem get?_step
    (ledger : Ledger V)
    (remembers : op.forgets groupId = false)
    (other : ∀ chain, op ≠ .commit chain) :
    (ledger.step op).floors.get? groupId = ledger.floors.get? groupId ∧
      ((ledger.step op).chains.get? groupId = ledger.chains.get? groupId ∨
        (ledger.step op).chains.get? groupId = none) := by
  by_cases onKeys : op.onKeys = true
  · have same := ledger.sameFamilies_step onKeys
    rw [same.floors, same.chains]
    exact ⟨rfl, .inl rfl⟩
  · cases op with
    | commit chain =>
      exact absurd rfl (other chain)
    | uncommit gone =>
      refine ⟨rfl, ?_⟩
      show (ledger.chains.erase gone).get? groupId = _ ∨
        (ledger.chains.erase gone).get? groupId = _
      rw [get?_erase]
      split
      · exact .inr rfl
      · exact .inl rfl
    | owe _ | kept _ | clear =>
      exact ⟨rfl, .inl rfl⟩
    | forgetGroup forgotten =>
      have differs : groupId ≠ forgotten := by
        rintro rfl
        simp [Op.forgets] at remembers
      have unchanged := ledger.get?_forgetGroup differs
      exact ⟨unchanged.1, .inl unchanged.2⟩
    | forgetAllGroups =>
      simp [Op.forgets] at remembers
    | openArea openedGroup workspaceId idSeed version key served =>
      have same := ledger.chains_openArea openedGroup workspaceId idSeed
        version key served
      show (orUnchanged ledger _).floors.get? groupId = _ ∧
        ((orUnchanged ledger _).chains.get? groupId = _ ∨ _)
      rw [same.1, same.2]
      exact ⟨rfl, .inl rfl⟩
    | openPersonalWorkspace workspaceId version key =>
      simp only [step, openPersonalWorkspace]
      split
      · next after opened =>
          simp only [bind_eq_ok, exists_unit, Except.ok.injEq] at opened
          obtain ⟨_, rfl⟩ := opened
          exact ⟨rfl, .inl rfl⟩
      · exact ⟨rfl, .inl rfl⟩
    | _ =>
      exact absurd rfl onKeys

namespace Floored

variable {groupId : String} {past : List (Accepted V.toPrimitives)}
  {ledger after : Ledger V}

theorem start
    (unfloored : ledger.floors.get? groupId = none)
    (uncommitted : ledger.chains.get? groupId = none) :
    Floored groupId [] ledger where
  empty := fun _ => ⟨rfl, uncommitted⟩
  floor := by simp [unfloored]
  chain := by simp [uncommitted]

theorem keep
    (floored : Floored groupId past ledger)
    (floors : after.floors.get? groupId = ledger.floors.get? groupId)
    (chains : after.chains.get? groupId = ledger.chains.get? groupId ∨
      after.chains.get? groupId = none) :
    Floored groupId past after where
  empty := by
    intro unfloored
    obtain ⟨nothing, uncommitted⟩ := floored.empty (floors ▸ unfloored)
    rcases chains with same | gone
    · exact ⟨nothing, same.trans uncommitted⟩
    · exact ⟨nothing, gone⟩
  floor := by
    rw [floors]
    exact floored.floor
  chain := by
    intro chain isChain
    rcases chains with same | gone
    · exact floored.chain chain (same ▸ isChain)
    · simp [gone] at isChain

/-- A commit that keeps the floor's keys keeps the past in reach. -/
theorem commit
    (floored : Floored groupId past ledger)
    {chain : Accepted V.toPrimitives}
    (ofGroup : chain.val.groupId = groupId)
    {messages : Set Bytes}
    (apart : Set.InjOn V.sha256 messages)
    (pastStated : ∀ earlier ∈ past, earlier.statements ⊆ messages)
    (stated : chain.statements ⊆ messages)
    (keeps : ∀ floor ∈ ledger.floors.get? groupId,
      overtakenBy floor chain = none →
        floor.val.groupKeys <+: chain.val.groupKeys)
    (committed : ledger.commit chain = .ok after) :
    Floored groupId (past ++ [chain]) after ∧
      ∀ earlier ∈ past, Reaches earlier chain := by
  obtain ⟨passes, chains, floors⟩ := commit_eq_ok committed
  rw [ofGroup] at passes chains floors
  have isCurrent : after.chains.get? groupId = some chain := by
    rw [chains, get?_set, if_pos rfl]
  have reaches : ∀ earlier ∈ past, Reaches earlier chain := by
    intro earlier member
    cases isFloor : ledger.floors.get? groupId with
    | none =>
      rw [(floored.empty isFloor).1] at member
      simp at member
    | some floor =>
      obtain ⟨inPast, reachFloor⟩ := floored.floor floor isFloor
      have through := overtakenBy_eq_none.mp (passes floor isFloor)
      have fromFloor : Reaches floor chain :=
        ⟨digests_begin apart (pastStated floor inPast) stated through.2.1,
          keeps floor isFloor (passes floor isFloor)⟩
      exact (reachFloor earlier member).trans fromFloor
  have all : ∀ earlier ∈ past ++ [chain], Reaches earlier chain := by
    intro earlier member
    rcases mem_append.mp member with inPast | isChain
    · exact reaches earlier inPast
    · rw [mem_singleton] at isChain
      exact isChain ▸ .refl chain
  refine ⟨?_, reaches⟩
  by_cases moves :
      movesFloor (ledger.floors.get? groupId) chain = true
  · have isFloor : after.floors.get? groupId = some chain := by
      rw [floors, if_pos moves, get?_set, if_pos rfl]
    exact {
      empty := by simp [isFloor]
      floor := by
        intro floor member
        rw [isFloor, Option.mem_def, Option.some.injEq] at member
        exact member ▸ ⟨by simp, all⟩
      chain := by
        intro current member
        rw [isCurrent, Option.mem_def, Option.some.injEq] at member
        exact member ▸ ⟨by simp, all⟩ }
  · have same : after.floors = ledger.floors := by
      rw [floors, if_neg moves]
    obtain ⟨floor, isFloor⟩ :
        ∃ floor, ledger.floors.get? groupId = some floor := by
      cases isFloor : ledger.floors.get? groupId with
      | none =>
        simp [movesFloor, isFloor] at moves
      | some floor =>
        exact ⟨floor, rfl⟩
    obtain ⟨inPast, reachFloor⟩ := floored.floor floor isFloor
    have through := overtakenBy_eq_none.mp (passes floor isFloor)
    have level :
        chain.val.roster.rosterVersion ≤ floor.val.roster.rosterVersion ∧
          chain.val.groupKeyVersion ≤ floor.val.groupKeyVersion := by
      simp only [movesFloor, isFloor, Option.all_some, Bool.or_eq_true,
        Bool.and_eq_true, decide_eq_true_eq, not_or, not_and,
        Nat.not_lt] at moves
      exact ⟨moves.1, moves.2 (le_antisymm through.1 moves.1)⟩
    have back := (reaches floor inPast).symm_of_le level.1 level.2
    exact {
      empty := by simp [same, isFloor]
      floor := by
        intro found member
        rw [same, isFloor, Option.mem_def, Option.some.injEq] at member
        subst member
        refine ⟨mem_append_left _ inPast, ?_⟩
        intro earlier inAll
        exact (all earlier inAll).trans back
      chain := by
        intro current member
        rw [isCurrent, Option.mem_def, Option.some.injEq] at member
        exact member ▸ ⟨by simp, all⟩ }

end Floored

theorem step_commit_of_error
    {reason : CryptoError}
    (refused : ledger.commit chain = .error reason) :
    ledger.step (.commit chain) = ledger := by
  simp [step, refused]

/-- Every operation keeps the past in reach of the floor. -/
theorem Floored.step
    {past : List (Accepted V.toPrimitives)}
    (floored : Floored groupId past ledger)
    (remembers : op.forgets groupId = false)
    {messages : Set Bytes}
    (apart : Set.InjOn V.sha256 messages)
    (pastStated : ∀ earlier ∈ past, earlier.statements ⊆ messages)
    (stated : ∀ chain, op = .commit chain → chain.val.groupId = groupId →
      chain.statements ⊆ messages)
    (keeps : ∀ chain, op = .commit chain → chain.val.groupId = groupId →
      ∀ floor ∈ ledger.floors.get? groupId,
        overtakenBy floor chain = none →
          floor.val.groupKeys <+: chain.val.groupKeys) :
    Floored groupId (past ++ ledger.commits groupId op) (ledger.step op) ∧
      ∀ chain ∈ ledger.commits groupId op,
        ∀ earlier ∈ past, Reaches earlier chain := by
  by_cases isCommit : ∃ chain, op = .commit chain
  · obtain ⟨chain, rfl⟩ := isCommit
    cases committed : ledger.commit chain with
    | error reason =>
      rw [step_commit_of_error committed]
      simp [commits, committed, floored]
    | ok after =>
      have stepped : ledger.step (.commit chain) = after := by
        simp [Ledger.step, committed]
      rw [stepped]
      by_cases ofGroup : chain.val.groupId = groupId
      · have kept := floored.commit ofGroup apart pastStated
          (stated chain rfl ofGroup) (keeps chain rfl ofGroup) committed
        simpa [commits, committed, ofGroup] using kept
      · obtain ⟨_, chains, floors⟩ := commit_eq_ok committed
        have other : groupId ≠ chain.val.groupId :=
          fun same => ofGroup same.symm
        have sameFloor : after.floors.get? groupId =
            ledger.floors.get? groupId := by
          rw [floors]
          split
          · rw [get?_set, if_neg other]
          · rfl
        have sameChain : after.chains.get? groupId =
            ledger.chains.get? groupId := by
          rw [chains, get?_set, if_neg other]
        have kept := floored.keep sameFloor (.inl sameChain)
        simpa [commits, committed, ofGroup] using kept
  · have other : ∀ chain, op ≠ .commit chain :=
      fun chain same => isCommit ⟨chain, same⟩
    have nothing : ledger.commits groupId op = [] := by
      cases op with
      | commit chain =>
        exact absurd rfl (other chain)
      | _ =>
        rfl
    obtain ⟨floors, chains⟩ := ledger.get?_step remembers other
    rw [nothing, append_nil]
    exact ⟨floored.keep floors chains, by simp⟩

/-- A whole run keeps the past in reach of the floor. -/
theorem Floored.run
    {past : List (Accepted V.toPrimitives)}
    {ops : List (Op V)}
    (floored : Floored groupId past ledger)
    (remembers : ∀ op ∈ ops, op.forgets groupId = false)
    {messages : Set Bytes}
    (apart : Set.InjOn V.sha256 messages)
    (pastStated : ∀ earlier ∈ past, earlier.statements ⊆ messages)
    (stated : statementsOf groupId ops ⊆ messages)
    (keeps : KeepsKeys groupId ledger ops)
    (pairwise : past.Pairwise Reaches) :
    Floored groupId (past ++ committed groupId ledger ops)
        (ledger.run ops) ∧
      (past ++ committed groupId ledger ops).Pairwise Reaches := by
  induction ops generalizing past ledger with
  | nil =>
    simpa [committed, Ledger.run] using ⟨floored, pairwise⟩
  | cons op rest inductionHypothesis =>
    have opStated : ∀ chain, op = .commit chain →
        chain.val.groupId = groupId → chain.statements ⊆ messages := by
      intro chain isCommit ofGroup statement member
      exact stated ⟨chain, by simp [isCommit], ofGroup, member⟩
    obtain ⟨stepped, reaches⟩ := floored.step (remembers op (by simp))
      apart pastStated opStated keeps.1
    have alone : (ledger.commits groupId op).Pairwise Reaches := by
      cases op with
      | commit given =>
        simp only [commits]
        split
        · split
          · exact pairwise_singleton _ _
          · exact .nil
        · exact .nil
      | _ =>
        exact .nil
    have result := inductionHypothesis stepped
      (fun later member => remembers later (by simp [member]))
      (by
        intro earlier member
        rcases mem_append.mp member with inPast | isNew
        · exact pastStated earlier inPast
        · obtain ⟨isCommit, ofGroup⟩ := mem_commits isNew
          exact opStated earlier isCommit ofGroup)
      (by
        rintro statement ⟨chain, member, ofGroup, inChain⟩
        exact stated ⟨chain, by simp [member], ofGroup, inChain⟩)
      keeps.2
      (pairwise_append.mpr ⟨pairwise, alone,
        fun earlier inPast chain isNew =>
          reaches chain isNew earlier inPast⟩)
    simpa [committed, append_assoc] using result

/-- The chains a run commits for a family are one history. -/
structure OneHistory
    (groupId : String)
    (ledger : Ledger V)
    (ops : List (Op V)) : Prop where
  follows : (committed groupId ledger ops).Pairwise Follows
  current : ∀ chain ∈ (ledger.run ops).chains.get? groupId,
    chain ∈ committed groupId ledger ops ∧
      ∀ earlier ∈ committed groupId ledger ops, Follows earlier chain
  floor : committed groupId ledger ops ≠ [] →
    ∃ floor ∈ (ledger.run ops).floors.get? groupId,
      floor ∈ committed groupId ledger ops ∧
        ∀ earlier ∈ committed groupId ledger ops, Follows earlier floor
  refused : ∀ chain reason, (ledger.run ops).commit chain = .error reason →
    (ledger.run ops).step (.commit chain) = ledger.run ops

/--
From a ledger that holds nothing of a family on, the chains it commits are one
history, whatever is committed, uncommitted and refused between, as long as
each keeps the group keys below the floor's last.
-/
theorem oneHistory
    {groupId : String}
    {ledger : Ledger V}
    {ops : List (Op V)}
    (unfloored : ledger.floors.get? groupId = none)
    (uncommitted : ledger.chains.get? groupId = none)
    (remembers : ∀ op ∈ ops, op.forgets groupId = false)
    (apart : Set.InjOn V.sha256 (statementsOf groupId ops))
    (keeps : KeepsKeys groupId ledger ops) :
    OneHistory groupId ledger ops := by
  have start := Floored.start unfloored uncommitted
  obtain ⟨floored, reaches⟩ := start.run remembers apart (by simp)
    (subset_refl _) keeps .nil
  rw [nil_append] at floored reaches
  have stated : ∀ chain ∈ committed groupId ledger ops,
      chain.statements ⊆ statementsOf groupId ops := by
    intro chain member statement inChain
    obtain ⟨isCommit, ofGroup⟩ := mem_committed member
    exact ⟨chain, isCommit, ofGroup, inChain⟩
  exact {
    follows := reaches.imp_of_mem fun first second reaches =>
      reaches.follows apart (stated _ first) (stated _ second)
    current := by
      intro chain isChain
      obtain ⟨member, all⟩ := floored.chain chain isChain
      refine ⟨member, fun earlier inAll => ?_⟩
      exact (all earlier inAll).follows apart (stated _ inAll)
        (stated _ member)
    floor := by
      intro nonempty
      cases isFloor : (ledger.run ops).floors.get? groupId with
      | none =>
        exact absurd (floored.empty isFloor).1 nonempty
      | some floor =>
        obtain ⟨member, all⟩ := floored.floor floor isFloor
        refine ⟨floor, rfl, member, fun earlier inAll => ?_⟩
        exact (all earlier inAll).follows apart (stated _ inAll)
          (stated _ member)
    refused := fun _ _ refused => step_commit_of_error refused }

end Ledger

end Worker

end HushOS
