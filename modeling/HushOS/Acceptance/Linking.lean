import HushOS.Acceptance.KeyLine

namespace HushOS

open Toolkit List OrderedMap

/-!
# How the served chain is linked

What acceptance takes of the served statements before it verifies any: each
statement once with its copies (`Grouped`), and a path in which every roster
is the one the next names by digest (`Chained`).
-/

/-- The served statements by digest, each with the copies served of it. -/
structure Grouped
    (P : Primitives)
    (parse : Bytes → Except CryptoError α)
    (signed : List SignedGroupStatement)
    (served : OrderedMap String (Served α)) : Prop where
  digest : ∀ {digest : String} {one : Served α},
    served.get? digest = some one →
      one.digest = digest ∧ P.digest one.statement = digest
  parsed : ∀ {digest : String} {one : Served α},
    served.get? digest = some one → parse one.statement = .ok one.value
  first : ∀ {digest : String} {one : Served α},
    served.get? digest = some one →
      ∃ copy ∈ signed, copy.statement = one.statement
  copies : ∀ {digest : String} {one : Served α} {copy : SignedGroupStatement},
    served.get? digest = some one → copy ∈ one.copies →
      copy ∈ signed ∧ P.digest copy.statement = digest
  reads : ∀ copy ∈ signed, ∃ value, parse copy.statement = .ok value
  listed : ∀ copy ∈ signed, ∃ one,
    served.get? (P.digest copy.statement) = some one ∧
      ∃ kept ∈ one.copies, sameSignatures copy kept = true

section

variable {P : Primitives} {parse : Bytes → Except CryptoError α}

theorem Grouped.nil :
    Grouped P parse [] (.empty : OrderedMap String (Served α)) where
  digest := by simp
  parsed := by simp
  first := by simp
  copies := by simp
  reads := by simp
  listed := by simp

/-- One more served copy joins the copies of its own digest. -/
theorem Grouped.concat
    {signed : List SignedGroupStatement}
    {served after : OrderedMap String (Served α)}
    {copy : SignedGroupStatement}
    (grouped : Grouped P parse signed served)
    (added : P.addServed parse served copy = .ok after) :
    Grouped P parse (signed ++ [copy]) after := by
  simp only [Primitives.addServed, bind_eq_ok, Except.ok.injEq] at added
  obtain ⟨value, read, rfl⟩ := added
  generalize isHeld :
    (served.get? (P.digest copy.statement)).getD
      { value, statement := copy.statement
        digest := P.digest copy.statement, copies := [] } = held
  -- The entry the copy goes to: the one there, or a new one of its own.
  have heldIs :
      served.get? (P.digest copy.statement) = some held ∨
        served.get? (P.digest copy.statement) = none ∧
          held =
            { value, statement := copy.statement
              digest := P.digest copy.statement, copies := [] } := by
    cases found : served.get? (P.digest copy.statement) with
    | none =>
      right
      simpa [found] using isHeld.symm
    | some one =>
      left
      simpa [found] using isHeld
  have entry {digest : String} {one : Served α}
      (found :
        (served.set (P.digest copy.statement)
          { held with
            copies :=
              if held.copies.any (sameSignatures copy) then held.copies
              else held.copies ++ [copy] }).get? digest = some one) :
      served.get? digest = some one ∨
        digest = P.digest copy.statement ∧
          one =
            { held with
              copies :=
                if held.copies.any (sameSignatures copy) then held.copies
                else held.copies ++ [copy] } := by
    rw [get?_set] at found
    split at found
    · next same =>
        exact .inr ⟨same, (Option.some.inj found).symm⟩
    · exact .inl found
  exact {
    digest := by
      intro digest one found
      rcases entry found with earlier | ⟨rfl, rfl⟩
      · exact grouped.digest earlier
      · rcases heldIs with there | ⟨_, rfl⟩
        · have heldDigest := grouped.digest there
          exact heldDigest
        · exact ⟨rfl, rfl⟩
    parsed := by
      intro digest one found
      rcases entry found with earlier | ⟨rfl, rfl⟩
      · exact grouped.parsed earlier
      · rcases heldIs with there | ⟨_, rfl⟩
        · have heldParsed := grouped.parsed there
          exact heldParsed
        · exact read
    first := by
      intro digest one found
      have earlierFirst {digest : String} {one : Served α}
          (earlier : served.get? digest = some one) :
          ∃ other ∈ signed ++ [copy], other.statement = one.statement := by
        obtain ⟨other, member, same⟩ := grouped.first earlier
        exact ⟨other, mem_append_left _ member, same⟩
      rcases entry found with earlier | ⟨rfl, rfl⟩
      · exact earlierFirst earlier
      · rcases heldIs with there | ⟨_, rfl⟩
        · have heldFirst := earlierFirst there
          exact heldFirst
        · exact ⟨copy, by simp, rfl⟩
    copies := by
      intro digest one other found member
      have earlierCopy {digest : String} {one : Served α}
          (earlier : served.get? digest = some one)
          (member : other ∈ one.copies) :
          other ∈ signed ++ [copy] ∧ P.digest other.statement = digest :=
        ⟨mem_append_left _ (grouped.copies earlier member).1,
          (grouped.copies earlier member).2⟩
      rcases entry found with earlier | ⟨rfl, rfl⟩
      · exact earlierCopy earlier member
      · have fromHeld (inHeld : other ∈ held.copies) :
            other ∈ signed ++ [copy] ∧
              P.digest other.statement = P.digest copy.statement := by
          rcases heldIs with there | ⟨_, rfl⟩
          · exact earlierCopy there inHeld
          · simp at inHeld
        dsimp only at member
        split at member
        · exact fromHeld member
        · rcases mem_append.mp member with inHeld | isNew
          · exact fromHeld inHeld
          · rw [mem_singleton] at isNew
            subst isNew
            exact ⟨by simp, rfl⟩
    reads := by
      intro other member
      rcases mem_append.mp member with earlier | new
      · exact grouped.reads other earlier
      · rw [mem_singleton] at new
        subst new
        exact ⟨value, read⟩
    listed := by
      intro other member
      simp only [get?_set]
      rcases mem_append.mp member with earlier | new
      · obtain ⟨one, found, kept, inOne, same⟩ := grouped.listed other earlier
        split
        · next atCopy =>
            rw [atCopy] at found
            have isOne : held = one := by
              rcases heldIs with there | ⟨absent, _⟩
              · exact Option.some.inj (there.symm.trans found)
              · simp [absent] at found
            subst isOne
            refine ⟨_, rfl, kept, ?_, same⟩
            dsimp only
            split
            · exact inOne
            · exact mem_append_left _ inOne
        · exact ⟨one, found, kept, inOne, same⟩
      · rw [mem_singleton] at new
        subst new
        refine ⟨_, if_pos rfl, ?_⟩
        dsimp only
        split
        · next known =>
            exact any_eq_true.mp known
        · exact ⟨other, by simp, by simp [sameSignatures]⟩ }

theorem Primitives.grouped_of_byDigest
    {signed : List SignedGroupStatement}
    {served : OrderedMap String (Served α)}
    (collected : P.byDigest signed parse = .ok served) :
    Grouped P parse signed served := by
  induction signed using List.reverseRecOn generalizing served with
  | nil =>
    simp only [Primitives.byDigest, foldEach, Except.ok.injEq] at collected
    subst collected
    exact .nil
  | append_singleton earlier copy inductionHypothesis =>
    simp only [Primitives.byDigest, foldEach_append, bind_eq_ok]
      at collected
    obtain ⟨middle, before, last⟩ := collected
    simp only [foldEach, bind_eq_ok, Except.ok.injEq] at last
    obtain ⟨_, added, rfl⟩ := last
    exact (inductionHypothesis before).concat added

/-- Copies of distinct digests are each served alone. -/
theorem Primitives.byDigest_of_distinct
    {signed : List SignedGroupStatement}
    {value : SignedGroupStatement → α}
    (reads : ∀ copy ∈ signed, parse copy.statement = .ok (value copy))
    (distinct :
      (signed.map fun copy => P.digest copy.statement).Nodup) :
    ∃ served, P.byDigest signed parse = .ok served ∧
      served.entries = signed.map fun copy =>
        (P.digest copy.statement,
          { value := value copy, statement := copy.statement
            digest := P.digest copy.statement, copies := [copy] }) := by
  induction signed using List.reverseRecOn with
  | nil =>
    exact ⟨.empty, rfl, rfl⟩
  | append_singleton earlier copy inductionHypothesis =>
    rw [map_append, nodup_append] at distinct
    obtain ⟨served, collected, entries⟩ := inductionHypothesis
      (fun other member => reads other (by simp [member])) distinct.1
    have new : P.digest copy.statement ∉ served.keys := by
      rw [OrderedMap.keys, entries, map_map]
      intro member
      exact distinct.2.2 _ member _ (by simp) rfl
    have absent := get?_eq_none.mpr new
    refine ⟨served.set (P.digest copy.statement)
      { value := value copy, statement := copy.statement
        digest := P.digest copy.statement, copies := [copy] }, ?_, ?_⟩
    · unfold Primitives.byDigest at collected ⊢
      rw [foldEach_append, collected]
      simp [foldEach, Primitives.addServed, reads copy (by simp), absent]
    · rw [entries_set_of_new new, entries]
      simp

end

/-- A path of rosters, each the one the next names by digest. -/
structure Chained
    (rosters : OrderedMap String (Served Roster))
    (bottom : Nat)
    (path : List (Served Roster)) : Prop where
  versions : ∀ {index : Nat} {served : Served Roster},
    path[index]? = some served →
      served.value.rosterVersion = bottom + index + 1
  named : ∀ {index : Nat} {before after : Served Roster},
    path[index]? = some before → path[index + 1]? = some after →
      rosters.get? after.value.previousRosterDigest = some before

variable {rosters : OrderedMap String (Served Roster)}

/-- A chain grows by a top whose digest link is its last roster. -/
theorem Chained.concat
    {bottom : Nat}
    {below : List (Served Roster)}
    {top : Served Roster} :
    Chained rosters bottom (below ++ [top]) ↔
      Chained rosters bottom below ∧
        top.value.rosterVersion = bottom + below.length + 1 ∧
        (below ≠ [] →
          rosters.get? top.value.previousRosterDigest = below.getLast?) := by
  constructor
  · intro chained
    refine ⟨⟨?_, ?_⟩, chained.versions (by simp), ?_⟩
    · intro index served found
      refine chained.versions ?_
      rw [getElem?_append_left (List.getElem?_eq_some_iff.mp found).1]
      exact found
    · intro index before after isBefore isAfter
      have beforeInside := (List.getElem?_eq_some_iff.mp isBefore).1
      have afterInside := (List.getElem?_eq_some_iff.mp isAfter).1
      rw [← getElem?_append_left beforeInside] at isBefore
      rw [← getElem?_append_left afterInside] at isAfter
      exact chained.named isBefore isAfter
    · intro nonempty
      have positive := length_pos_iff.mpr nonempty
      obtain ⟨last, isLast⟩ := getLast?_isSome.mpr nonempty |>
        Option.isSome_iff_exists.mp
      rw [isLast]
      rw [getLast?_eq_getElem?,
        ← getElem?_append_left (by omega)] at isLast
      refine chained.named isLast ?_
      rw [Nat.sub_add_cancel positive]
      simp
  · rintro ⟨chained, version, link⟩
    constructor
    · intro index served found
      rw [getElem?_append] at found
      split at found
      · exact chained.versions found
      · next past =>
          rw [getElem?_singleton] at found
          split at found
          · next atEnd =>
              have isTop := Option.some.inj found
              subst isTop
              omega
          · simp at found
    · intro index before after isBefore isAfter
      have inside : index < below.length := by
        have bound := (List.getElem?_eq_some_iff.mp isAfter).1
        rw [length_append, length_singleton] at bound
        omega
      rw [getElem?_append_left inside] at isBefore
      by_cases isTop : index + 1 = below.length
      · have same : after = top := by
          rw [isTop] at isAfter
          simpa using isAfter.symm
        subst same
        have nonempty : below ≠ [] := ne_nil_of_length_pos (by omega)
        rw [link nonempty, getLast?_eq_getElem?, ← isTop]
        simpa using isBefore
      · rw [getElem?_append_left (by omega)] at isAfter
        exact chained.named isBefore isAfter

/-- Linking down finds exactly the chained path of that many steps. -/
theorem linkDown_eq_ok
    {bottom steps : Nat}
    {top : Option (Served Roster)}
    {path : List (Served Roster)} :
    linkDown rosters bottom steps top = .ok path ↔
      path.length = steps ∧ Chained rosters bottom path ∧
        (path ≠ [] → path.getLast? = top) := by
  induction steps generalizing top path with
  | zero =>
    simp only [linkDown, Except.ok.injEq, length_eq_zero_iff]
    constructor
    · rintro rfl
      exact ⟨rfl, ⟨by simp, by simp⟩, by simp⟩
    · rintro ⟨rfl, _, _⟩
      rfl
  | succ steps inductionHypothesis =>
    cases top with
    | none =>
      simp only [linkDown, reduceCtorEq, false_iff]
      rintro ⟨length, _, last⟩
      have nonempty : path ≠ [] := ne_nil_of_length_pos (by omega)
      exact nonempty (getLast?_eq_none_iff.mp (last nonempty))
    | some top =>
      simp only [linkDown, bind_eq_ok, exists_unit, refuseIf_eq_ok,
        not_not, inductionHypothesis, Except.ok.injEq]
      constructor
      · rintro ⟨version, below, ⟨length, chained, last⟩, rfl⟩
        refine ⟨by simp [length], Chained.concat.mpr
          ⟨chained, by rw [version, length], ?_⟩, by simp⟩
        intro nonempty
        have positive := length_pos_iff.mpr nonempty
        rw [last nonempty, if_pos (by omega)]
      · rintro ⟨length, chained, last⟩
        have nonempty : path ≠ [] :=
          ne_nil_of_length_pos (by omega)
        obtain ⟨below, rfl⟩ :=
          getLast?_eq_some_iff.mp (last nonempty)
        rw [length_append, length_singleton,
          Nat.add_right_cancel_iff] at length
        obtain ⟨chainedBelow, version, link⟩ := Chained.concat.mp chained
        refine ⟨by rw [version, length], below,
          ⟨length, chainedBelow, ?_⟩, rfl⟩
        intro belowNonempty
        have positive := length_pos_iff.mpr belowNonempty
        rw [if_pos (by omega), link belowNonempty]

/-- The head version of a cache, 0 without one. -/
def cachedVersion (cached : Option Cached) : Nat :=
  (cached.map fun cached => cached.rosterDigests.length).getD 0

/-- The versions of the rosters served. -/
def servedVersions (rosters : OrderedMap String (Served Roster)) : List Nat :=
  rosters.values.map fun served => served.value.rosterVersion

/-- Where a served chain stands, and how it is linked. -/
structure LineHolds
    (cached : Option Cached)
    (rosters : OrderedMap String (Served Roster))
    (line : Line) : Prop where
  extending : line.extending =
    if (servedVersions rosters).all (fun version =>
        cachedVersion cached < version) then cached
    else none
  bottom : line.bottom = cachedVersion line.extending
  head : line.head = (servedVersions rosters).foldl max line.bottom
  head_ne_zero : line.head ≠ 0
  single : line.bottom < line.head →
    (rosters.values.filter fun served =>
      served.value.rosterVersion = line.head).length ≤ 1
  length : line.path.length = line.head - line.bottom
  chained : Chained rosters line.bottom line.path
  top : line.path ≠ [] → line.path.getLast? =
    (rosters.values.filter fun served =>
      served.value.rosterVersion = line.head).head?
  continues : ∀ cached ∈ line.extending, ∀ next ∈ line.path.head?,
    cached.rosterDigests.getLast? = some next.value.previousRosterDigest

/-- The line is found exactly when the served rosters hold one. -/
theorem lineOf_eq_ok
    {cached : Option Cached}
    {line : Line} :
    lineOf cached rosters = .ok line ↔ LineHolds cached rosters line := by
  have bottomIs (extending : Option Cached)
      (isExtending : extending =
        if (servedVersions rosters).all (fun version =>
            cachedVersion cached < version) then cached
        else none) :
      (if extending.isSome = true then cachedVersion cached else 0) =
        cachedVersion extending := by
    subst isExtending
    split
    · cases cached <;> simp [cachedVersion]
    · simp [cachedVersion]
  have continuesIff
      (extending : Option Cached)
      (path : List (Served Roster)) :
      ¬ ((extending.any fun cached => path.head?.any fun next =>
          cached.rosterDigests.getLast? ≠
            some next.value.previousRosterDigest) = true) ↔
        ∀ cached ∈ extending, ∀ next ∈ path.head?,
          cached.rosterDigests.getLast? =
            some next.value.previousRosterDigest := by
    cases extending <;> cases path.head? <;> simp
  simp only [lineOf, bind_eq_ok, exists_unit, refuseIf_eq_ok, continuesIff,
    Except.ok.injEq, linkDown_eq_ok]
  rw [← cachedVersion, ← servedVersions]
  simp only [bottomIs _ rfl]
  constructor
  · rintro ⟨nonzero, single, path, ⟨length, chained, top⟩, continues, rfl⟩
    exact {
      extending := rfl, bottom := rfl, head := rfl
      head_ne_zero := nonzero
      single := fun fresh => not_lt.mp fun more => single ⟨fresh, more⟩
      length := length, chained := chained, top := top
      continues := continues }
  · intro holds
    obtain ⟨extending, bottom, head, path⟩ := line
    obtain ⟨isExtending, isBottom, isHead, nonzero, single, length, chained,
      top, continues⟩ := holds
    dsimp only at *
    subst isExtending isBottom isHead
    refine ⟨nonzero, ?_, path, ⟨length, chained, top⟩, continues, rfl⟩
    rintro ⟨fresh, more⟩
    have few := single fresh
    omega

/-- Only the last roster of a path is at the path's top version. -/
theorem filter_version_eq
    {bottom : Nat}
    {path : List (Served Roster)}
    (versions : ∀ {index : Nat} {served : Served Roster},
      path[index]? = some served →
        served.value.rosterVersion = bottom + index + 1) :
    (path.filter fun served =>
        served.value.rosterVersion = bottom + path.length) =
      path.getLast?.toList := by
  rcases eq_nil_or_concat' path with rfl | ⟨below, top, rfl⟩
  · rfl
  · have none : (below.filter fun served =>
        served.value.rosterVersion = bottom + (below ++ [top]).length) =
          [] := by
      rw [filter_eq_nil_iff]
      intro served member
      obtain ⟨index, isServed⟩ := mem_iff_getElem?.mp member
      have inside := (List.getElem?_eq_some_iff.mp isServed).1
      rw [← getElem?_append_left inside] at isServed
      have version := versions isServed
      rw [length_append, length_singleton, decide_eq_true_eq]
      omega
    have topVersion : top.value.rosterVersion =
        bottom + (below ++ [top]).length := by
      have isTop : (below ++ [top])[below.length]? = some top := by simp
      have version := versions isTop
      rw [length_append, length_singleton]
      omega
    rw [filter_append, none, nil_append, filter_singleton]
    simp [topVersion]

/-- Served rosters that are one linked path form the line. -/
theorem LineHolds.of_path
    {cached : Option Cached}
    {rosters : OrderedMap String (Served Roster)}
    {path : List (Served Roster)}
    (perm : rosters.values.Perm path)
    (versions : ∀ {index : Nat} {served : Served Roster},
      path[index]? = some served →
        served.value.rosterVersion = cachedVersion cached + index + 1)
    (named : ∀ {index : Nat} {before after : Served Roster},
      path[index]? = some before → path[index + 1]? = some after →
        rosters.get? after.value.previousRosterDigest = some before)
    (continues : ∀ before ∈ cached, ∀ next ∈ path.head?,
      before.rosterDigests.getLast? =
        some next.value.previousRosterDigest)
    (something : cachedVersion cached + path.length ≠ 0) :
    LineHolds cached rosters
      { extending := cached
        bottom := cachedVersion cached
        head := cachedVersion cached + path.length
        path := path } := by
  have servedPerm :
      (servedVersions rosters).Perm
        (path.map fun served => served.value.rosterVersion) :=
    perm.map _
  have above : ∀ version ∈ servedVersions rosters,
      cachedVersion cached < version ∧
        version ≤ cachedVersion cached + path.length := by
    intro version member
    obtain ⟨served, inPath, rfl⟩ :=
      mem_map.mp (servedPerm.mem_iff.mp member)
    obtain ⟨index, isServed⟩ := mem_iff_getElem?.mp inPath
    have inside := (List.getElem?_eq_some_iff.mp isServed).1
    have isVersion := versions isServed
    omega
  have tops :
      (rosters.values.filter fun served =>
          served.value.rosterVersion =
            cachedVersion cached + path.length).Perm
        path.getLast?.toList := by
    rw [← filter_version_eq versions]
    exact perm.filter _
  have head :
      (servedVersions rosters).foldl max (cachedVersion cached) =
        cachedVersion cached + path.length := by
    have isMax :
        (cachedVersion cached :: servedVersions rosters).max? =
          some (cachedVersion cached + path.length) := by
      refine max?_eq_some_iff.mpr ⟨?_, ?_⟩
      · rcases eq_nil_or_concat' path with rfl | ⟨below, top, rfl⟩
        · simp
        · have isTop : (below ++ [top])[below.length]? = some top := by simp
          have version := versions isTop
          refine mem_cons_of_mem _ (servedPerm.mem_iff.mpr
            (mem_map.mpr ⟨top, by simp, ?_⟩))
          rw [length_append, length_singleton]
          omega
      · intro version member
        rcases mem_cons.mp member with rfl | isServed
        · omega
        · exact (above version isServed).2
    rw [max?_cons'] at isMax
    exact Option.some.inj isMax
  exact {
    extending := by
      have all : (servedVersions rosters).all (fun version =>
          cachedVersion cached < version) = true := by
        rw [all_eq_true]
        intro version member
        simpa using (above version member).1
      rw [if_pos all]
    bottom := rfl
    head := head.symm
    head_ne_zero := something
    single := by
      intro _
      rw [tops.length_eq]
      cases path.getLast? <;> simp
    length := by
      simp only
      omega
    chained := ⟨versions, named⟩
    top := by
      intro nonempty
      obtain ⟨last, isLast⟩ := Option.isSome_iff_exists.mp
        (getLast?_isSome.mpr nonempty)
      dsimp only at isLast ⊢
      rw [isLast, Option.toList_some, perm_singleton] at tops
      rw [isLast, tops]
      rfl
    continues := continues }

end HushOS
