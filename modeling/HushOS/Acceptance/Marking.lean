import HushOS.Acceptance.Accepting

namespace HushOS

open Toolkit List OrderedMap

/-!
# What the marks are, and when they are met

Pins and the cache mark rosters, group keys and the first keys by version
(`MarkedBy`).  The last step of acceptance holds the verified chain to every
mark: `checkMarks_eq_ok` says when it passes.
-/

/-- The side a pin marks a roster with. -/
def pinRosterSide (pin : GroupPin) : MarkSide where
  digest := pin.rosterDigest
  sources := [.pin]
  signerUserId := none

/-- The side a pin marks a group key with. -/
def pinKeySide (pin : GroupPin) : MarkSide where
  digest := pin.groupKeyDigest
  sources := [.pin]
  signerUserId := none

/-- The side a pin marks the first keys with. -/
def Primitives.pinFirstSide (P : Primitives) (pin : GroupPin) : MarkSide where
  digest := P.firstKeysMark pin.firstEd25519PublicKey
    (some pin.firstMlDsaPublicKeyDigest)
  sources := [.pin]
  signerUserId := none

/-- The side a cache marks the first keys with. -/
def Primitives.cacheFirstSide (P : Primitives) (cached : Cached) :
    MarkSide where
  digest := P.firstKeysMark
    (cached.groupKeys.headD ⟨"", ""⟩).ed25519PublicKey
    (P.mlDsaDigest (cached.groupKeys.headD ⟨"", ""⟩).mlDsaPublicKey)
  sources := [.cache]
  signerUserId := some cached.creatorUserId

/-- Sides put under their versions, in order. -/
def placed (pairs : List (Nat × MarkSide)) : OrderedMap Nat (List MarkSide) :=
  pairs.foldl (fun map pair => map.push pair.1 pair.2) .empty

/-- What pins and a cache mark, the cache's key sides being known. -/
structure MarkedBy
    (P : Primitives)
    (pins : List GroupPin)
    (cached : Option Cached)
    (keySides : List (Nat × MarkSide))
    (marks : Marks) : Prop where
  sides : keySides = [] ∧ cached = none ∨
    ∃ before ∈ cached, P.keySides before = .ok keySides
  rosters : marks.rosters =
    placed (pins.map (fun pin => (pin.rosterVersion, pinRosterSide pin)) ++
      (cached.map Cached.rosterSides).getD [])
  keys : marks.keys =
    placed (pins.map (fun pin => (pin.keyVersion, pinKeySide pin)) ++
      keySides)
  first : marks.first =
    pins.map P.pinFirstSide ++ (cached.map P.cacheFirstSide).toList

theorem mem_listAt_placed
    {pairs : List (Nat × MarkSide)}
    {version : Nat}
    {side : MarkSide} :
    side ∈ (placed pairs).listAt version ↔ (version, side) ∈ pairs := by
  rw [placed, listAt_foldl_push]
  simp only [OrderedMap.listAt, get?_empty, Option.getD_none,
    nil_append, mem_map, mem_filter, decide_eq_true_eq]
  constructor
  · rintro ⟨⟨_, _⟩, ⟨member, rfl⟩, rfl⟩
    exact member
  · intro member
    exact ⟨_, ⟨member, rfl⟩, rfl⟩

theorem mem_keys_placed
    {pairs : List (Nat × MarkSide)}
    {version : Nat} :
    version ∈ (placed pairs).keys ↔ ∃ side, (version, side) ∈ pairs := by
  rw [placed, mem_keys_foldl_push]
  simp only [keys_empty, not_mem_nil, false_or,
    Prod.exists]
  constructor
  · rintro ⟨_, side, member, rfl⟩
    exact ⟨side, member⟩
  · rintro ⟨side, member⟩
    exact ⟨_, side, member, rfl⟩

theorem placed_concat
    (pairs : List (Nat × MarkSide))
    (pair : Nat × MarkSide) :
    placed (pairs ++ [pair]) = (placed pairs).push pair.1 pair.2 := by
  simp [placed]

theorem placed_append
    (first second : List (Nat × MarkSide)) :
    placed (first ++ second) =
      second.foldl (fun map pair => map.push pair.1 pair.2)
        (placed first) := by
  simp [placed]

section

variable {P : Primitives}

/-- Marking the pins one by one marks what they say. -/
theorem Primitives.markedBy_pins
    (pins : List GroupPin) :
    MarkedBy P pins none [] (pins.foldl P.markPin .none) := by
  induction pins using List.reverseRecOn with
  | nil =>
    exact ⟨.inl ⟨rfl, rfl⟩, rfl, rfl, rfl⟩
  | append_singleton earlier pin inductionHypothesis =>
    have rosters := inductionHypothesis.rosters
    have keys := inductionHypothesis.keys
    have first := inductionHypothesis.first
    simp only [Option.map_none, Option.getD_none, Option.toList_none,
      append_nil] at rosters keys first
    rw [foldl_append, foldl_cons, foldl_nil]
    exact {
      sides := .inl ⟨rfl, rfl⟩
      rosters := by
        simp only [Option.map_none, Option.getD_none, append_nil,
          map_append, map_cons, map_nil, placed_concat,
          ← rosters]
        rfl
      keys := by
        simp only [append_nil, map_append, map_cons,
          map_nil, placed_concat, ← keys]
        rfl
      first := by
        simp only [Option.map_none, Option.toList_none, append_nil,
          map_append, map_cons, map_nil, ← first]
        rfl }

/-- The marks are those of the pins and of the cached keys. -/
theorem Primitives.marksOf_eq_ok
    {pins : List GroupPin}
    {cached : Option Cached}
    {marks : Marks} :
    P.marksOf pins cached = .ok marks ↔
      ∃ keySides, MarkedBy P pins cached keySides marks := by
  have ofPins := @Primitives.markedBy_pins P pins
  have rosters := ofPins.rosters
  have keys := ofPins.keys
  have first := ofPins.first
  simp only [Option.map_none, Option.getD_none, Option.toList_none,
    append_nil] at rosters keys first
  cases cached with
  | none =>
    simp only [Primitives.marksOf, Except.ok.injEq]
    constructor
    · rintro rfl
      exact ⟨[], ofPins⟩
    · rintro ⟨keySides, marked⟩
      rcases marked.sides with ⟨rfl, _⟩ | ⟨_, impossible, _⟩
      · exact Marks.ext (ofPins.rosters.trans marked.rosters.symm)
          (ofPins.keys.trans marked.keys.symm)
          (ofPins.first.trans marked.first.symm)
      · simp at impossible
  | some cached =>
    simp only [Primitives.marksOf, Primitives.markCache, bind_eq_ok,
      Except.ok.injEq]
    constructor
    · rintro ⟨keySides, read, rfl⟩
      exact ⟨keySides,
        { sides := .inr ⟨cached, rfl, read⟩
          rosters := by
            rw [Option.map_some, Option.getD_some, placed_append, rosters]
          keys := by
            rw [placed_append, keys]
          first := by
            rw [first]
            rfl }⟩
    · rintro ⟨keySides, marked⟩
      rcases marked.sides with ⟨_, impossible⟩ | ⟨before, isBefore, read⟩
      · simp at impossible
      · simp only [Option.mem_def, Option.some.injEq] at isBefore
        subst isBefore
        refine ⟨keySides, read, Marks.ext ?_ ?_ ?_⟩
        · rw [marked.rosters, placed_append, rosters]
          rfl
        · rw [marked.keys, placed_append, keys]
        · rw [marked.first, first]
          rfl

variable {version : Nat} {all : List MarkSide} {side : MarkSide} {marks : Marks}

variable {digest : String}

theorem mem_rosterSides
    {cached : Cached} :
    (∃ side, (version, side) ∈ cached.rosterSides ∧ side.digest = digest) ↔
      1 ≤ version ∧ cached.rosterDigests[version - 1]? = some digest := by
  simp only [Cached.rosterSides, mem_map, Prod.exists, Prod.mk.injEq]
  constructor
  · rintro ⟨_, ⟨found, index, member, rfl, rfl⟩, rfl⟩
    rw [mem_zipIdx_iff_getElem?] at member
    exact ⟨by omega, by simpa using member⟩
  · rintro ⟨positive, found⟩
    exact ⟨_, ⟨digest, version - 1,
      mem_zipIdx_iff_getElem?.mpr found, by omega, rfl⟩, rfl⟩

/-- A cached key marks its own version with its digest. -/
theorem mem_keySides
    {cached : Cached}
    {keySides : List (Nat × MarkSide)}
    (read : P.keySides cached = .ok keySides) :
    (∃ side, (version, side) ∈ keySides ∧ side.digest = digest) ↔
      1 ≤ version ∧ ∃ key, cached.groupKeys[version - 1]? = some key ∧
        P.groupKeyDigest key = .ok digest := by
  rw [Primitives.keySides, readEach_eq_ok] at read
  constructor
  · rintro ⟨side, member, rfl⟩
    obtain ⟨place, isSide⟩ := mem_iff_getElem?.mp member
    have inside := (List.getElem?_eq_some_iff.mp isSide).1
    have sameLength := read.length_eq
    rw [length_zipIdx] at sameLength
    have readAt := read.get (by rw [length_zipIdx]; omega) inside
    have isPair := (List.getElem?_eq_some_iff.mp isSide).2
    simp only [get_eq_getElem, getElem_zipIdx, Nat.zero_add,
      bind_eq_ok, Except.ok.injEq, isPair, Prod.mk.injEq] at readAt
    obtain ⟨found, isDigest, rfl, rfl⟩ := readAt
    exact ⟨by omega, _, getElem?_eq_getElem (by omega), isDigest⟩
  · rintro ⟨positive, key, found, isDigest⟩
    have inside := (List.getElem?_eq_some_iff.mp found).1
    have isKey := (List.getElem?_eq_some_iff.mp found).2
    have sameLength := read.length_eq
    rw [length_zipIdx] at sameLength
    have readAt := read.get
      (by rw [length_zipIdx]; exact inside) (by omega)
    simp only [get_eq_getElem, getElem_zipIdx, Nat.zero_add,
      isKey, isDigest, ok_bind, Except.ok.injEq] at readAt
    have member := getElem_mem (l := keySides)
      (show version - 1 < keySides.length by omega)
    rw [← readAt, show version - 1 + 1 = version by omega] at member
    exact ⟨_, member, rfl⟩

@[simp] theorem mem_versionsOf
    {marks : OrderedMap Nat α}
    {version : Nat} :
    version ∈ versionsOf marks ↔ version ∈ marks.keys := by
  simp [versionsOf]

theorem listAt_eq_nil
    {marks : OrderedMap Nat (List MarkSide)}
    (unmarked : version ∉ marks.keys) :
    marks.listAt version = [] := by
  simp [OrderedMap.listAt, get?_eq_none.mpr unmarked]

/-- Marks agree exactly when no two of one kind and version differ. -/
theorem agree_eq_ok
    {marks : Marks} :
    agree marks = .ok () ↔
      (∀ first ∈ marks.first, ∀ second ∈ marks.first,
        first.digest = second.digest) ∧
      (∀ version, ∀ first ∈ marks.rosters.listAt version,
        ∀ second ∈ marks.rosters.listAt version,
          first.digest = second.digest) ∧
      ∀ version, ∀ first ∈ marks.keys.listAt version,
        ∀ second ∈ marks.keys.listAt version,
          first.digest = second.digest := by
  have everywhere (all : OrderedMap Nat (List MarkSide)) :
      (∀ version ∈ versionsOf all, ∀ first ∈ all.listAt version,
          ∀ second ∈ all.listAt version, first.digest = second.digest) ↔
        ∀ version, ∀ first ∈ all.listAt version,
          ∀ second ∈ all.listAt version, first.digest = second.digest := by
    constructor
    · intro agrees version first firstMember
      by_cases marked : version ∈ all.keys
      · exact agrees version (mem_versionsOf.mpr marked) first firstMember
      · simp [listAt_eq_nil marked] at firstMember
    · intro agrees version _
      exact agrees version
  simp only [agree, bind_eq_ok, exists_unit, forEach_eq_ok, conflict_eq_ok,
    everywhere]

/-- A side is filed under its own digest. -/
theorem digest_of_get?_foldl_addSide
    (found : (all.foldl addSide .empty).get? digest = some side) :
    side.digest = digest := by
  induction all using List.reverseRecOn generalizing digest side with
  | nil =>
    simp at found
  | append_singleton earlier next inductionHypothesis =>
    rw [foldl_append, foldl_cons, foldl_nil, addSide]
      at found
    split at found
    · rw [get?_set] at found
      split at found
      · next same =>
          rw [Option.some.injEq] at found
          rw [← found, same]
      · exact inductionHypothesis found
    · next held isHeld =>
        rw [get?_set] at found
        split at found
        · next same =>
            rw [Option.some.injEq] at found
            have heldDigest : held.digest = next.digest :=
              inductionHypothesis isHeld
            rw [← found, same]
            exact heldDigest
        · exact inductionHypothesis found

theorem digest_mem_of_mem_sides
    (member : side ∈ sides all) :
    side.digest ∈ all.map MarkSide.digest := by
  rw [sides, mem_sortBy, mem_values] at member
  obtain ⟨digest, found⟩ := member
  have listed := (mem_keys_foldl_addSide all).mp
    (OrderedMap.mem_keys.mpr ⟨_, found⟩)
  simp only [keys_empty, not_mem_nil, or_false] at listed
  rwa [digest_of_get?_foldl_addSide found]

theorem sides_ne_nil
    (member : side ∈ all) :
    sides all ≠ [] := by
  have listed : side.digest ∈ (all.foldl addSide .empty).keys :=
    (mem_keys_foldl_addSide all).mpr (.inl (mem_map_of_mem member))
  obtain ⟨merged, found⟩ := OrderedMap.mem_keys.mp listed
  refine ne_nil_of_mem (a := merged) ?_
  rw [sides, mem_sortBy, mem_values]
  exact ⟨_, found⟩

theorem digest_keyMark
    (agreed : ∀ first ∈ all, ∀ second ∈ all, first.digest = second.digest)
    (member : side ∈ all) :
    ((sides all).headD default).digest = side.digest := by
  cases merged : sides all with
  | nil =>
    exact absurd merged (sides_ne_nil member)
  | cons head rest =>
    have inSides : head ∈ sides all := by simp [merged]
    obtain ⟨other, inAll, same⟩ :=
      mem_map.mp (digest_mem_of_mem_sides inSides)
    rw [headD_cons, ← same]
    exact agreed other inAll side member

/-- The key marks the pass starts with, by version. -/
def Marks.keyMarks (marks : Marks) : OrderedMap Nat MarkSide :=
  marks.keys.mapValues fun all => (sides all).headD default

theorem Marks.digest_get?_keyMarks
    (agreed : agree marks = .ok ())
    (member : side ∈ marks.keys.listAt version) :
    ((marks.keyMarks.get? version).getD default).digest = side.digest := by
  have agree := (agree_eq_ok.mp agreed).2.2 version
  rw [Marks.keyMarks, get?_mapValues]
  cases found : marks.keys.get? version with
  | none =>
    simp [OrderedMap.listAt, found] at member
  | some all =>
    simp only [OrderedMap.listAt, found, Option.getD_some] at member agree
    exact digest_keyMark agree member

theorem MarkedBy.mem_keyMarks
    {pins : List GroupPin}
    {cached : Option Cached}
    {keySides : List (Nat × MarkSide)}
    (marked : MarkedBy P pins cached keySides marks)
    {version : Nat} :
    version ∈ marks.keyMarks.keys ↔
      ∃ side, side ∈ marks.keys.listAt version := by
  rw [Marks.keyMarks, keys_mapValues, marked.keys,
    mem_keys_placed]
  simp only [mem_listAt_placed]

@[simp] theorem digest_signedSide
    (state : State)
    (side : MarkSide) :
    (signedSide state side).digest = side.digest :=
  rfl

variable {state : State}

/-- The roster marks are met when each marked digest is the chain's. -/
theorem checkRosterMarks_eq_ok
    {rosterDigests : List String} :
    checkRosterMarks marks state rosterDigests = .ok () ↔
      ∀ version ∈ marks.rosters.keys, version ≤ rosterDigests.length ∧
        ∀ side ∈ marks.rosters.listAt version,
          side.digest = rosterDigests.getD (version - 1) "" := by
  simp only [checkRosterMarks, bind_eq_ok, exists_unit, forEach_eq_ok,
    conflict_eq_ok, throwing_eq_ok, refuseIf_eq_ok, mem_filter,
    mem_versionsOf, decide_eq_true_eq, any_eq_true, not_exists,
    not_and, not_lt]
  constructor
  · rintro ⟨met, reached⟩ version marked
    refine ⟨reached version marked, ?_⟩
    intro side member
    exact met version ⟨marked, reached version marked⟩
      (signedSide state side)
      (mem_append_left _ (mem_map_of_mem member)) _
      (mem_append_right _ (mem_singleton_self _))
  · intro met
    refine ⟨?_, fun version marked => (met version marked).1⟩
    rintro version ⟨marked, _⟩
    have all : ∀ side ∈
        (marks.rosters.listAt version).map (signedSide state) ++
          [signedSide state
            { digest := rosterDigests.getD (version - 1) ""
              sources := [.served]
              signerUserId := none }],
        side.digest = rosterDigests.getD (version - 1) "" := by
      intro side member
      rcases mem_append.mp member with isMark | isServed
      · obtain ⟨mark, inMarks, rfl⟩ := mem_map.mp isMark
        exact (met version marked).2 mark inMarks
      · rw [mem_singleton] at isServed
        subst isServed
        rfl
    intro first firstMember second secondMember
    rw [all first firstMember, all second secondMember]

/-- A compared code is met when the chain gives the same words there. -/
theorem checkCode_eq_ok
    {rosterDigests : List String}
    {rosterVersion : Nat}
    {compared : List String}
    {source : MarkSource}
    {codeOf :
      String → GroupPublicKey → Nat → Except CryptoError (List String)} :
    checkCode state rosterDigests rosterVersion compared source codeOf =
        .ok () ↔
      rosterVersion ≤ rosterDigests.length ∧
        ∃ code,
          codeOf (rosterDigests.getD (rosterVersion - 1) "")
              (state.keys.getD
                (keyVersionAt state.verified rosterVersion - 1) ⟨"", ""⟩)
              (keyVersionAt state.verified rosterVersion) = .ok code ∧
            joined ' ' code = joined ' ' compared := by
  simp only [checkCode, bind_eq_ok, exists_unit, throwing_eq_ok,
    refuseIf_eq_ok, not_lt]
  constructor
  · rintro ⟨reached, code, isCode, same⟩
    refine ⟨reached, code, isCode, ?_⟩
    by_contra differs
    simp [differs] at same
  · rintro ⟨reached, code, isCode, same⟩
    exact ⟨reached, code, isCode, by simp [same]⟩

/-- The key marks are met when each marked key has its digest. -/
theorem Primitives.checkKeyMarks_eq_ok :
    P.checkKeyMarks state = .ok () ↔
      ∀ version ∈ state.keyMarks.keys, version ≤ state.keys.length ∧
        P.groupKeyDigest (state.keys.getD (version - 1) ⟨"", ""⟩) =
          .ok ((state.keyMarks.get? version).getD default).digest := by
  simp only [Primitives.checkKeyMarks, bind_eq_ok, exists_unit,
    forEach_eq_ok, conflict_eq_ok, throwing_eq_ok, refuseIf_eq_ok,
    mem_filter, mem_versionsOf, decide_eq_true_eq, any_eq_true,
    not_exists, not_and, not_lt]
  constructor
  · rintro ⟨met, reached⟩ version marked
    refine ⟨reached version marked, ?_⟩
    obtain ⟨digest, isDigest, same⟩ :=
      met version ⟨marked, reached version marked⟩
    rw [isDigest]
    have sameDigest := same _ (mem_cons_self) _
      (mem_cons_of_mem _ (mem_singleton_self _))
    exact congrArg Except.ok sameDigest.symm
  · intro met
    refine ⟨?_, fun version marked => (met version marked).1⟩
    rintro version ⟨marked, _⟩
    refine ⟨_, (met version marked).2, ?_⟩
    intro first firstMember second secondMember
    simp only [mem_cons, not_mem_nil, or_false]
      at firstMember secondMember
    rcases firstMember with rfl | rfl <;>
      rcases secondMember with rfl | rfl <;> rfl

/-- Every mark of an input is met by the chain verified. -/
structure MarksMet
    (P : Primitives)
    (input : Accepting)
    (prepared : Prepared)
    (state : State) : Prop where
  rosters : ∀ version ∈ prepared.marks.rosters.keys,
    version ≤ (digestsOf prepared.line).length ∧
      ∀ side ∈ prepared.marks.rosters.listAt version,
        side.digest = (digestsOf prepared.line).getD (version - 1) ""
  join : ∀ mark ∈ prepared.own.joinMark,
    mark.rosterVersion ≤ (digestsOf prepared.line).length ∧
      ∃ code,
        P.joinCode
            ((digestsOf prepared.line).getD (mark.rosterVersion - 1) "")
            (state.keys.getD
              (keyVersionAt state.verified mark.rosterVersion - 1)
              ⟨"", ""⟩)
            (keyVersionAt state.verified mark.rosterVersion) = .ok code ∧
          joined ' ' code = joined ' ' mark.code
  pairs : ∀ mark ∈ prepared.own.pairMarks,
    mark.rosterVersion ≤ (digestsOf prepared.line).length ∧
      ∃ code,
        P.pairCodeOf
            ((digestsOf prepared.line).getD (mark.rosterVersion - 1) "")
            (state.keys.getD
              (keyVersionAt state.verified mark.rosterVersion - 1)
              ⟨"", ""⟩)
            (keyVersionAt state.verified mark.rosterVersion)
            ((input.me.map Reader.userId).getD "") mark.other = .ok code ∧
          joined ' ' code = joined ' ' mark.code
  letIn : firstUse input prepared.marks = true →
    ∃ latest ∈ state.held.getLast?,
      active (ownEntryOn input.me latest.roster) = true
  keys : ∀ version ∈ state.keyMarks.keys, version ≤ state.keys.length ∧
    P.groupKeyDigest (state.keys.getD (version - 1) ⟨"", ""⟩) =
      .ok ((state.keyMarks.get? version).getD default).digest

/-- The checks at the end of a call are that every mark is met. -/
theorem Primitives.checkMarks_eq_ok
    {input : Accepting}
    {prepared : Prepared} :
    P.checkMarks input prepared state = .ok () ↔
      MarksMet P input prepared state := by
  have joinIff :
      P.checkJoin prepared.own.joinMark state (digestsOf prepared.line) =
          .ok () ↔
        ∀ mark ∈ prepared.own.joinMark,
          checkCode state (digestsOf prepared.line) mark.rosterVersion
            mark.code .join P.joinCode = .ok () := by
    cases prepared.own.joinMark <;> simp [Primitives.checkJoin]
  simp only [Primitives.checkMarks, bind_eq_ok, exists_unit,
    checkRosterMarks_eq_ok, joinIff, Primitives.checkPairs, forEach_eq_ok,
    checkCode_eq_ok, throwing_eq_ok, refuseIf_eq_ok, not_and,
    Bool.not_eq_false, Option.any_eq_true, P.checkKeyMarks_eq_ok,
    mem_mergeSort]
  constructor
  · rintro ⟨rosters, join, pairs, letIn, keys⟩
    exact ⟨rosters, join, pairs, letIn, keys⟩
  · rintro ⟨rosters, join, pairs, letIn, keys⟩
    exact ⟨rosters, join, pairs, letIn, keys⟩

end

end HushOS
