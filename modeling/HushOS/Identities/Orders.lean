import HushOS.Identities.Remembering

namespace HushOS

open Toolkit List

/-!
# The order links are served in

A walk takes the first of the links it may take, and several may lead to the
same keys at different versions.  So a walk ends alike for every order the
links are served in exactly where every way along them ends alike, which
nothing but such links can change.
-/

namespace Identities

/-- What of an answer does not name links: for a path, the keys it passes. -/
inductive View where
  | path (keys : List KeySet)
  | fork
  | stale
  | tooMany
  | none
  deriving DecidableEq

/-- What an answer says, whichever links it names. -/
def viewOf : SuccessionPath → View
  | .path links => .path (links.map keysOf)
  | .fork => .fork
  | .stale => .stale
  | .tooMany => .tooMany
  | .none => .none

/-- A walk asked along the same links served in another order. -/
def Asked.ordered (asked : Asked) (links : List (Option ServedLink)) : Asked :=
  { asked with links }

section Ways

variable (P : Primitives) (asked : Asked)

/-- The links that leave where a walk is and hold, in the order served. -/
def leaving (walking : Walking) : List SuccessionLink :=
  (continuing P asked walking).filter
    (verifies P asked.userId walking.consenting)

/-- Links all leading to the same keys. -/
def OneWay (links : List SuccessionLink) : Prop :=
  ∀ link ∈ links, ∀ other ∈ links, keysOf link = keysOf other

/--
A way along verified links: each leaves where the last led, at a version no
lower, while every such link leads to the same keys, not passed before.
-/
inductive Way : Walking → List SuccessionLink → Walking → Prop where
  | here (walking : Walking) : Way walking [] walking
  | on
      {walking last : Walking}
      {link : SuccessionLink}
      {rest : List SuccessionLink}
      (notServed : atServed P asked walking.at_ = false)
      (oneWay : OneWay (leaving P asked walking))
      (leaves : link ∈ leaving P asked walking)
      (isNew : keysOf link ∉ walking.seen)
      (further : Way (walking.look.follow P asked link) rest last) :
      Way walking (link :: rest) last

/-- Where a way can go no further, and what that is. -/
inductive Ends (walking : Walking) : View → Prop where
  | arrived
      (served : atServed P asked walking.at_ = true)
      (nothing : leaving P asked walking = [])
      (moved : walking.at_ ≠ none) :
      Ends walking (.path walking.seen)
  | unmoved
      (served : atServed P asked walking.at_ = true)
      (nothing : leaving P asked walking = [])
      (atStart : walking.at_ = none) :
      Ends walking .none
  | stale
      (served : atServed P asked walking.at_ = true)
      (something : leaving P asked walking ≠ []) :
      Ends walking .stale
  | fork
      (notServed : atServed P asked walking.at_ = false)
      (forked : ¬ OneWay (leaving P asked walking)) :
      Ends walking .fork
  | nowhere
      (notServed : atServed P asked walking.at_ = false)
      (oneWay : OneWay (leaving P asked walking))
      (seen : ∀ link ∈ leaving P asked walking, keysOf link ∈ walking.seen) :
      Ends walking .none

/-- Every way that can go no further ends alike. -/
def EndsAlike : Prop :=
  ∀ links others last lastToo view viewToo,
    Way P asked asked.begin links last → Ends P asked last view →
    Way P asked asked.begin others lastToo → Ends P asked lastToo viewToo →
    view = viewToo

/-- Along every way, no more links count than may. -/
def FewCount : Prop :=
  ∀ links last, Way P asked asked.begin links last →
    counted P asked last.look ≤ MAX_SUCCESSION_LINKS

end Ways

section Orders

variable {P : Primitives} {asked : Asked}

/-- The links go one way when they show at most one pair of keys. -/
theorem oneWay_iff {links : List SuccessionLink} :
    OneWay links ↔ (links.map keysOf).dedup.length ≤ 1 := by
  constructor
  · intro oneWay
    cases links with
    | nil =>
      simp
    | cons link rest =>
      have same : (link :: rest).map keysOf =
          List.replicate (rest.length + 1) (keysOf link) := by
        refine eq_replicate_iff.mpr ⟨by simp, fun keys member => ?_⟩
        obtain ⟨other, listed, rfl⟩ := mem_map.mp member
        exact oneWay other listed link mem_cons_self
      rw [same, replicate_dedup (Nat.succ_ne_zero _)]
      simp
  · intro single link member other memberToo
    have first : keysOf link ∈ (links.map keysOf).dedup :=
      mem_dedup.mpr (mem_map_of_mem member)
    have second : keysOf other ∈ (links.map keysOf).dedup :=
      mem_dedup.mpr (mem_map_of_mem memberToo)
    match shape : (links.map keysOf).dedup with
    | [] =>
      rw [shape] at first
      exact absurd first not_mem_nil
    | [keys] =>
      rw [shape, mem_singleton] at first second
      rw [first, second]
    | _ :: _ :: _ =>
      rw [shape] at single
      simp at single

theorem OneWay.perm
    {links others : List SuccessionLink}
    (oneWay : OneWay links)
    (perm : others.Perm links) :
    OneWay others :=
  fun link member other memberToo =>
    oneWay link (perm.mem_iff.mp member) other (perm.mem_iff.mp memberToo)

variable {links : List (Option ServedLink)} {walking last : Walking}
  {way : List SuccessionLink}

theorem leaving_perm
    (perm : links.Perm asked.links)
    (walking : Walking) :
    (leaving P (asked.ordered links) walking).Perm
      (leaving P asked walking) :=
  ((perm.filterMap snapshot).filter _).filter _

theorem counted_perm
    (perm : links.Perm asked.links)
    (walking : Walking) :
    counted P (asked.ordered links) walking = counted P asked walking :=
  (perm.filterMap snapshot).countP_eq _

theorem walkFrom_ordered
    (perm : links.Perm asked.links)
    (steps : Nat)
    (walking : Walking) :
    walkFrom P (answering (verifies P asked.userId)) (asked.ordered links)
        (steps + 1) walking () =
      if MAX_SUCCESSION_LINKS < counted P asked walking.look then
        { answer := .tooMany, walking := walking.look, memory := () }
      else
        match settle P asked walking.look
          (leaving P (asked.ordered links) walking) with
        | .inl answer => { answer, walking := walking.look, memory := () }
        | .inr next =>
          walkFrom P (answering (verifies P asked.userId))
            (asked.ordered links) steps next () := by
  rw [walkFrom, counted_perm perm]
  dsimp only
  rw [holding_answering]
  rfl

/-- A walk that settles ends as its way does. -/
theorem ends_of_settle
    {walking : Walking}
    {links : List SuccessionLink}
    {answer : SuccessionPath}
    (seen : walking.seen = walking.path.map keysOf)
    (perm : links.Perm (leaving P asked walking))
    (settled : settle P asked walking.look links = .inl answer) :
    Ends P asked walking (viewOf answer) := by
  unfold settle at settled
  split at settled
  · next served =>
      rw [Sum.inl.injEq] at settled
      subst settled
      split
      · next something =>
          refine .stale served fun nothing => something ?_
          rw [nothing] at perm
          exact perm.eq_nil
      · next nothing =>
          rw [ne_eq, not_not] at nothing
          subst nothing
          have none_ := perm.symm.eq_nil
          split
          · next atStart =>
              exact .unmoved served none_ atStart
          · next moved =>
              rw [viewOf, show walking.look.path = walking.path from rfl,
                ← seen]
              exact .arrived served none_ moved
  · next notServed =>
      rw [Bool.not_eq_true] at notServed
      split at settled
      · next forked =>
          cases settled
          refine .fork notServed fun oneWay => ?_
          exact absurd (oneWay_iff.mp (oneWay.perm perm)) (not_le.mpr forked)
      · next single =>
          have oneWay := (oneWay_iff.mpr (not_lt.mp single)).perm perm.symm
          split at settled
          · cases settled
            refine .nowhere notServed oneWay fun link member => ?_
            exact absurd (perm.symm.subset member) not_mem_nil
          · next first rest =>
              split at settled
              · next isSeen =>
                  cases settled
                  refine .nowhere notServed oneWay fun link member => ?_
                  rw [oneWay link member first
                    (perm.subset mem_cons_self)]
                  exact isSeen
              · cases settled

theorem way_of_settle
    {walking next last : Walking}
    {links rest : List SuccessionLink}
    (perm : links.Perm (leaving P asked walking))
    (settled : settle P asked walking.look links = .inr next)
    (further : Way P asked next rest last) :
    ∃ link, Way P asked walking (link :: rest) last := by
  obtain ⟨notServed, single, link, others, rfl, isNew, rfl⟩ :=
    settle_eq_inr.mp settled
  exact ⟨link, .on notServed ((oneWay_iff.mpr single).perm perm.symm)
    (perm.subset mem_cons_self) isNew further⟩

/-- A walk with steps enough goes some way to its end. -/
theorem walkFrom_ends
    (perm : links.Perm asked.links)
    {steps : Nat}
    {walking : Walking}
    (enough : unseen asked walking < steps)
    (seen : walking.seen = walking.path.map keysOf) :
    ∃ way last, Way P asked walking way last ∧
      (MAX_SUCCESSION_LINKS < counted P asked last.look ∧
          (walkFrom P (answering (verifies P asked.userId))
            (asked.ordered links) steps walking ()).answer = .tooMany ∨
        counted P asked last.look ≤ MAX_SUCCESSION_LINKS ∧
          Ends P asked last (viewOf (walkFrom P
            (answering (verifies P asked.userId)) (asked.ordered links) steps
            walking ()).answer)) := by
  induction steps generalizing walking with
  | zero =>
    exact absurd enough (Nat.not_lt_zero _)
  | succ steps inductionHypothesis =>
    have same := leaving_perm (P := P) perm walking
    rw [walkFrom_ordered perm]
    split
    · next capped =>
        exact ⟨[], walking, .here walking, .inl ⟨capped, rfl⟩⟩
    · next uncapped =>
      split
      · next answer settled =>
          exact ⟨[], walking, .here walking,
            .inr ⟨not_lt.mp uncapped, ends_of_settle seen same settled⟩⟩
      · next next settled =>
          obtain ⟨_, _, link, rest, isLeaving, isNew, isNext⟩ :=
            settle_eq_inr.mp settled
          have leaves : link ∈ leaving P asked walking := by
            refine same.subset ?_
            rw [isLeaving]
            exact mem_cons_self
          have listed : link ∈ asked.readable :=
            mem_of_mem_filter (mem_of_mem_filter leaves)
          have fewer := unseen_follow (P := P) listed isNew
          have unmoved : unseen asked walking.look = unseen asked walking :=
            rfl
          subst isNext
          have seenNext : (walking.look.follow P asked link).seen =
              (walking.look.follow P asked link).path.map keysOf := by
            simp [Walking.follow, Walking.look, seen]
          obtain ⟨way, last, further, ends⟩ :=
            inductionHypothesis (by omega) seenNext
          obtain ⟨first, whole⟩ := way_of_settle same settled further
          exact ⟨first :: way, last, whole, ends⟩

theorem Way.unseen
    (goes : Way P asked walking way last) :
    unseen asked last + way.length ≤ unseen asked walking := by
  induction goes with
  | here =>
    exact Nat.le_refl _
  | @on walking last link rest _ _ leaves isNew _ inductionHypothesis =>
    have listed : link ∈ asked.readable :=
      mem_of_mem_filter (mem_of_mem_filter leaves)
    have isNewHere : keysOf link ∉ walking.look.seen := isNew
    have fewer := unseen_follow (P := P) listed isNewHere
    have unmoved : Identities.unseen asked walking.look =
        Identities.unseen asked walking := rfl
    rw [length_cons]
    omega

/-- A way visits no keys twice. -/
theorem Way.distinct
    (goes : Way P asked walking way last) :
    (way.map keysOf).Nodup ∧
      ∀ link ∈ way, link ∈ asked.readable ∧ keysOf link ∉ walking.seen := by
  induction goes with
  | here =>
    simp
  | @on walking last link rest _ _ leaves isNew _ inductionHypothesis =>
    obtain ⟨distinct, listed⟩ := inductionHypothesis
    have unseenLater : ∀ other ∈ rest, keysOf other ≠ keysOf link ∧
        keysOf other ∉ walking.seen := by
      intro other member
      have isNewToo := (listed other member).2
      simp only [Walking.follow, Walking.look, mem_append,
        mem_singleton, not_or] at isNewToo
      exact ⟨isNewToo.2, isNewToo.1⟩
    refine ⟨?_, ?_⟩
    · rw [map_cons, nodup_cons]
      refine ⟨fun member => ?_, distinct⟩
      obtain ⟨other, memberToo, same⟩ := mem_map.mp member
      exact (unseenLater other memberToo).1 same
    · intro other member
      rcases mem_cons.mp member with rfl | later
      · exact ⟨mem_of_mem_filter (mem_of_mem_filter leaves), isNew⟩
      · exact ⟨(listed other later).1, (unseenLater other later).2⟩

/-- Links served in a way's order are walked that way. -/
theorem Way.walked
    {way others : List SuccessionLink}
    (goes : Way P asked walking way last)
    (before : List SuccessionLink)
    (perm : links.Perm asked.links)
    (served : (asked.ordered links).readable = before ++ (way ++ others))
    (followed : ∀ link ∈ before, keysOf link ∈ walking.seen)
    (steps : Nat) :
    (walkFrom P (answering (verifies P asked.userId)) (asked.ordered links)
        (steps + way.length) walking ()).answer = .tooMany ∨
      walkFrom P (answering (verifies P asked.userId)) (asked.ordered links)
          (steps + way.length) walking () =
        walkFrom P (answering (verifies P asked.userId)) (asked.ordered links)
          steps last () := by
  induction goes generalizing before with
  | here =>
    exact .inr rfl
  | @on walking last link rest notServed oneWay leaves isNew further
      inductionHypothesis =>
      have same := leaving_perm (P := P) perm walking
      -- What was followed is not followed again: it would lead to seen keys.
      have first : ∃ more, leaving P (asked.ordered links) walking =
          link :: more := by
        have passes : continues P asked.start walking.at_ link = true ∧
            verifies P asked.userId walking.consenting link = true :=
          ⟨(mem_filter.mp (mem_filter.mp leaves).1).2,
            (mem_filter.mp leaves).2⟩
        have none_ : ((before.filter
            (continues P asked.start walking.at_)).filter
            (verifies P asked.userId walking.consenting)) = [] := by
          refine eq_nil_iff_forall_not_mem.mpr fun earlier member => ?_
          obtain ⟨member, holds⟩ := mem_filter.mp member
          obtain ⟨member, goesOn⟩ := mem_filter.mp member
          have leavesToo : earlier ∈ leaving P asked walking := by
            refine same.subset (mem_filter.mpr
              ⟨mem_filter.mpr ⟨?_, goesOn⟩, holds⟩)
            rw [served]
            exact mem_append_left _ member
          refine isNew ?_
          rw [oneWay link leaves earlier leavesToo]
          exact followed earlier member
        refine ⟨((rest ++ others).filter
          (continues P asked.start walking.at_)).filter
          (verifies P asked.userId walking.consenting), ?_⟩
        show ((asked.ordered links).readable.filter _).filter _ = _
        rw [served, filter_append, filter_append]
        refine (congrArg (· ++ _) none_).trans ?_
        rw [nil_append, cons_append]
        show (List.filter (continues P asked.start walking.at_) _).filter
          (verifies P asked.userId walking.consenting) = _
        rw [filter_cons_of_pos passes.1, filter_cons_of_pos passes.2]
      obtain ⟨more, isFirst⟩ := first
      have settled : settle P asked walking.look
          (leaving P (asked.ordered links) walking) =
          .inr (walking.look.follow P asked link) := by
        refine settle_eq_inr.mpr ⟨notServed, ?_, link, more, isFirst, isNew,
          rfl⟩
        exact oneWay_iff.mp (oneWay.perm same)
      rw [length_cons, ← Nat.add_assoc, walkFrom_ordered perm]
      split
      · exact .inl rfl
      · rw [settled]
        refine inductionHypothesis (before ++ [link]) ?_ ?_
        · rw [served, append_assoc]
          rfl
        · intro earlier member
          simp only [Walking.follow, Walking.look, mem_append,
            mem_singleton]
          rcases mem_append.mp member with earlier | isLink
          · exact .inl (followed _ earlier)
          · exact .inr (by rw [mem_singleton.mp isLink])

/-- Every way can be served first. -/
theorem exists_ordered
    (distinct : way.Nodup)
    (listed : ∀ link ∈ way, link ∈ asked.readable) :
    ∃ links others, links.Perm asked.links ∧
      (asked.ordered links).readable = way ++ others := by
  have items : ∃ items : List (Option ServedLink),
      items.map snapshot = way.map some ∧ ∀ item ∈ items, item ∈ asked.links := by
    clear distinct
    induction way with
    | nil =>
      exact ⟨[], rfl, by simp⟩
    | cons link rest inductionHypothesis =>
      obtain ⟨items, read, fromServed⟩ := inductionHypothesis
        fun other member => listed other (mem_cons_of_mem _ member)
      obtain ⟨item, member, isLink⟩ :=
        mem_filterMap.mp (listed link mem_cons_self)
      refine ⟨item :: items, by simp [isLink, read], ?_⟩
      intro other memberToo
      rcases mem_cons.mp memberToo with rfl | later
      · exact member
      · exact fromServed other later
  obtain ⟨items, read, fromServed⟩ := items
  have distinctItems : items.Nodup := by
    refine List.Nodup.of_map snapshot ?_
    rw [read]
    exact distinct.map (Option.some_injective _)
  obtain ⟨middle, reordered, inOrder⟩ := distinctItems.subperm fromServed
  obtain ⟨rest, whole⟩ := inOrder.exists_perm_append
  refine ⟨items ++ rest, rest.filterMap snapshot, ?_, ?_⟩
  · exact (whole.trans (reordered.append_right rest)).symm
  · show (items ++ rest).filterMap snapshot = way ++ rest.filterMap snapshot
    have readItems : items.filterMap snapshot = way := by
      have mapped : items.filterMap snapshot =
          (items.map snapshot).filterMap id := by
        rw [filterMap_map]
        rfl
      rw [mapped, read, filterMap_map]
      exact filterMap_some
    rw [filterMap_append, readItems]

theorem Ends.unique
    {walking : Walking}
    {view other : View}
    (ends : Ends P asked walking view)
    (endsToo : Ends P asked walking other) :
    view = other := by
  cases ends <;> cases endsToo <;> first | rfl | simp_all

theorem Ends.stops
    {walking : Walking}
    {view : View}
    {link : SuccessionLink}
    (ends : Ends P asked walking view)
    (notServed : atServed P asked walking.at_ = false)
    (oneWay : OneWay (leaving P asked walking))
    (leaves : link ∈ leaving P asked walking) :
    keysOf link ∈ walking.seen := by
  cases ends with
  | arrived served | unmoved served | stale served =>
    rw [served] at notServed
    cases notServed
  | fork _ forked =>
    exact absurd oneWay forked
  | nowhere _ _ seen =>
    exact seen link leaves

theorem Way.seen
    (goes : Way P asked walking way last)
    (seen : walking.seen = walking.path.map keysOf) :
    last.seen = last.path.map keysOf := by
  induction goes with
  | here =>
    exact seen
  | on _ _ _ _ _ inductionHypothesis =>
    exact inductionHypothesis (by
      simp [Walking.follow, Walking.look, seen])

theorem Ends.settled
    {walking : Walking}
    {view : View}
    {links : List SuccessionLink}
    (ends : Ends P asked walking view)
    (seen : walking.seen = walking.path.map keysOf)
    (perm : links.Perm (leaving P asked walking)) :
    ∃ answer, settle P asked walking.look links = .inl answer ∧
      viewOf answer = view := by
  cases settled : settle P asked walking.look links with
  | inl answer =>
    exact ⟨answer, rfl, (ends_of_settle seen perm settled).unique ends⟩
  | inr next =>
    obtain ⟨notServed, single, link, rest, rfl, isNew, _⟩ :=
      settle_eq_inr.mp settled
    exact absurd (ends.stops notServed
      ((oneWay_iff.mpr single).perm perm.symm)
      (perm.subset mem_cons_self)) isNew

theorem walk_ordered
    (perm : links.Perm asked.links)
    (within : counted P asked asked.begin ≤ MAX_SUCCESSION_LINKS) :
    walk P (answering (verifies P asked.userId)) (asked.ordered links) () =
      walkFrom P (answering (verifies P asked.userId)) (asked.ordered links)
        (asked.links.length + 1) asked.begin () := by
  rw [walk, show (asked.ordered links).begin = asked.begin from rfl,
    counted_perm perm, if_neg (not_lt.mpr within),
    show (asked.ordered links).links = links from rfl, perm.length_eq]

theorem counted_look (walking : Walking) :
    counted P asked walking ≤ counted P asked walking.look := by
  refine countP_mono_left fun link _ isCounted => ?_
  unfold counts at isCounted ⊢
  rw [Bool.or_eq_true] at isCounted ⊢
  refine isCounted.imp_right fun looked => ?_
  rw [Walking.look, any_cons, looked, Bool.or_true]

/-- Served first, a way is gone to its end or is too long. -/
theorem Way.gone
    {last : Walking}
    {way others : List SuccessionLink}
    {links : List (Option ServedLink)}
    (goes : Way P asked asked.begin way last)
    (perm : links.Perm asked.links)
    (served : (asked.ordered links).readable = way ++ others) :
    (walk P (answering (verifies P asked.userId)) (asked.ordered links)
        ()).answer = .tooMany ∨
      counted P asked last.look ≤ MAX_SUCCESSION_LINKS ∧
        ∀ view, Ends P asked last view →
          viewOf (walk P (answering (verifies P asked.userId))
            (asked.ordered links) ()).answer = view := by
  by_cases within : counted P asked asked.begin ≤ MAX_SUCCESSION_LINKS
  · have fewer := goes.unseen
    have begun := unseen_begin asked
    obtain ⟨left, isLeft⟩ : ∃ left, asked.links.length + 1 =
        left + 1 + way.length := ⟨asked.links.length - way.length, by omega⟩
    rw [walk_ordered perm within, isLeft]
    rcases goes.walked [] perm served (fun _ none_ =>
      absurd none_ not_mem_nil) (left + 1) with capped | arrived
    · exact .inl capped
    · rw [arrived]
      have stepped := walkFrom_ordered (P := P) perm left last
      by_cases capped : MAX_SUCCESSION_LINKS < counted P asked last.look
      · rw [if_pos capped] at stepped
        rw [stepped]
        exact .inl rfl
      · rw [if_neg capped] at stepped
        refine .inr ⟨not_lt.mp capped, fun view ends => ?_⟩
        obtain ⟨answer, settled, isView⟩ :=
          ends.settled (goes.seen rfl) (leaving_perm perm last)
        rw [stepped, settled]
        exact isView
  · left
    rw [walk, show (asked.ordered links).begin = asked.begin from rfl,
      counted_perm perm, if_pos (not_le.mp within)]

theorem Way.exists_order
    {last : Walking}
    (goes : Way P asked asked.begin way last) :
    ∃ links others, links.Perm asked.links ∧
      (asked.ordered links).readable = way ++ others := by
  obtain ⟨distinct, listed⟩ := goes.distinct
  exact exists_ordered (distinct.of_map keysOf)
    fun link member => (listed link member).1

theorem walk_ends
    (perm : links.Perm asked.links)
    (within : counted P asked asked.begin ≤ MAX_SUCCESSION_LINKS) :
    ∃ way last, Way P asked asked.begin way last ∧
      (MAX_SUCCESSION_LINKS < counted P asked last.look ∧
          (walk P (answering (verifies P asked.userId)) (asked.ordered links)
            ()).answer = .tooMany ∨
        counted P asked last.look ≤ MAX_SUCCESSION_LINKS ∧
          Ends P asked last (viewOf (walk P
            (answering (verifies P asked.userId)) (asked.ordered links)
            ()).answer)) := by
  have begun := unseen_begin asked
  rw [walk_ordered perm within]
  exact walkFrom_ends perm (by omega) rfl

theorem FewCount.walk_ends
    (few : FewCount P asked)
    (perm : links.Perm asked.links) :
    ∃ way last, Way P asked asked.begin way last ∧
      Ends P asked last (viewOf (walk P
        (answering (verifies P asked.userId)) (asked.ordered links)
        ()).answer) := by
  obtain ⟨way, last, goes, ⟨capped, _⟩ | ⟨_, ends⟩⟩ :=
    Identities.walk_ends (P := P) perm
      ((counted_look asked.begin).trans (few [] _ (.here _)))
  · exact absurd (few way last goes) (not_le.mpr capped)
  · exact ⟨way, last, goes, ends⟩

end Orders

section Level

/-- What of where a walk is decides which links go on. -/
def place (at_ : Option SuccessionLink) : Option (KeySet × Int) :=
  at_.map fun link => (keysOf link, link.newKeyVersion)

/-- Two walks that went the same way, whichever links they took. -/
structure Alike (first second : Walking) : Prop where
  at_ : place first.at_ = place second.at_
  consenting : first.consenting = second.consenting
  seen : first.seen = second.seen
  looked : first.looked.map place = second.looked.map place

/--
Wherever a way comes, verified links leaving to the same keys carry one new
version.
-/
def Level (P : Primitives) (asked : Asked) : Prop :=
  ∀ way last, Way P asked asked.begin way last →
    ∀ link ∈ leaving P asked last, ∀ other ∈ leaving P asked last,
      keysOf link = keysOf other → link.newKeyVersion = other.newKeyVersion

variable {P : Primitives} {asked : Asked} {first second : Walking}

theorem continues_of_place
    {at_ other : Option SuccessionLink}
    (same : place at_ = place other)
    (link : SuccessionLink) :
    continues P asked.start at_ link = continues P asked.start other link := by
  cases at_ with
  | none =>
    cases other with
    | none => rfl
    | some => cases same
  | some at_ =>
    cases other with
    | none => cases same
    | some other =>
      simp only [place, Option.map_some, Option.some.injEq,
        Prod.mk.injEq, keysOf, KeySet.mk.injEq] at same
      obtain ⟨⟨sameEncryption, sameSigning, sameMlDsa, _⟩, sameVersion⟩ :=
        same
      rw [continues, continues, leavesLink, leavesLink, sameEncryption,
        sameSigning, sameMlDsa, sameVersion]

theorem Alike.leaving
    (alike : Alike first second) :
    leaving P asked first = leaving P asked second := by
  have same : continuing P asked first = continuing P asked second :=
    filter_congr fun link _ => continues_of_place alike.at_ link
  rw [Identities.leaving, Identities.leaving, same, alike.consenting]

/-- Walks alike count the same links. -/
theorem Alike.counted_look
    (alike : Alike first second) :
    counted P asked first.look = counted P asked second.look := by
  have anyPlace : ∀ (link : SuccessionLink)
      {places others : List (Option SuccessionLink)},
      places.map place = others.map place →
      (places.any fun at_ => continues P asked.start at_ link) =
        others.any fun at_ => continues P asked.start at_ link := by
    intro link places
    induction places with
    | nil =>
      intro others same
      rw [map_eq_nil_iff.mp same.symm]
    | cons at_ rest inductionHypothesis =>
      intro others same
      obtain ⟨other, more, rfl, sameAt, sameRest⟩ :=
        map_eq_cons_iff.mp same.symm
      rw [any_cons, any_cons,
        continues_of_place sameAt.symm, inductionHypothesis sameRest.symm]
  have same : first.look.looked.map place = second.look.looked.map place := by
    simp only [Walking.look, map_cons, alike.at_, alike.looked]
  refine countP_congr fun link _ => ?_
  rw [counts, counts, anyPlace link same]

theorem Alike.follow
    {link other : SuccessionLink}
    (alike : Alike first second)
    (sameKeys : keysOf link = keysOf other)
    (sameVersion : link.newKeyVersion = other.newKeyVersion) :
    Alike (first.look.follow P asked link)
      (second.look.follow P asked other) where
  at_ := by
    simp [Walking.follow, place, sameKeys, sameVersion]
  consenting := by
    have parts := sameKeys
    simp only [keysOf, KeySet.mk.injEq] at parts
    simp only [Walking.follow, Walking.look, alike.consenting, leadsTo,
      parts.1, parts.2.1, parts.2.2.1]
  seen := by
    simp [Walking.follow, Walking.look, alike.seen, sameKeys]
  looked := by
    simp [Walking.follow, Walking.look, alike.at_, alike.looked]

theorem Alike.atServed
    (alike : Alike first second) :
    atServed P asked first.at_ = atServed P asked second.at_ := by
  have same := alike.at_
  cases isFirst : first.at_ with
  | none =>
    cases isSecond : second.at_ with
    | none => rfl
    | some =>
      rw [isFirst, isSecond] at same
      cases same
  | some link =>
    cases isSecond : second.at_ with
    | none =>
      rw [isFirst, isSecond] at same
      cases same
    | some other =>
      rw [isFirst, isSecond] at same
      simp only [place, Option.map_some, Option.some.injEq,
        Prod.mk.injEq] at same
      rw [Identities.atServed, Identities.atServed, same.1]

/-- Walks alike end alike. -/
theorem Alike.ends
    {view : View}
    (alike : Alike first second)
    (ends : Ends P asked first view) :
    Ends P asked second view := by
  have atStart : first.at_ = none ↔ second.at_ = none := by
    rw [← Option.map_eq_none_iff (f := fun link : SuccessionLink =>
      (keysOf link, link.newKeyVersion)), ← Option.map_eq_none_iff
      (f := fun link : SuccessionLink => (keysOf link, link.newKeyVersion))]
    exact Eq.congr_left alike.at_
  cases ends with
  | arrived served nothing moved =>
    rw [alike.seen]
    exact .arrived (alike.atServed ▸ served) (alike.leaving ▸ nothing)
      (atStart.not.mp moved)
  | unmoved served nothing atStart' =>
    exact .unmoved (alike.atServed ▸ served) (alike.leaving ▸ nothing)
      (atStart.mp atStart')
  | stale served something =>
    exact .stale (alike.atServed ▸ served) (alike.leaving ▸ something)
  | fork notServed forked =>
    exact .fork (alike.atServed ▸ notServed) (alike.leaving ▸ forked)
  | nowhere notServed oneWay seen =>
    exact .nowhere (alike.atServed ▸ notServed) (alike.leaving ▸ oneWay)
      (alike.seen ▸ alike.leaving ▸ seen)

theorem Way.counted_le
    {walking last : Walking}
    {way : List SuccessionLink}
    (goes : Way P asked walking way last) :
    counted P asked walking.look ≤ counted P asked last.look := by
  induction goes with
  | here =>
    exact Nat.le_refl _
  | @on walking last link rest _ _ _ _ _ inductionHypothesis =>
    exact (Identities.counted_look
      (walking.look.follow P asked link)).trans inductionHypothesis

/-- On level links every two ways stay alike. -/
theorem Way.alike
    {last lastToo : Walking}
    {way others : List SuccessionLink}
    {viewToo : View}
    (alike : Alike first second)
    (level : ∀ way last, Way P asked first way last →
      ∀ link ∈ leaving P asked last, ∀ other ∈ leaving P asked last,
        keysOf link = keysOf other → link.newKeyVersion = other.newKeyVersion)
    (goes : Way P asked first way last)
    (goesToo : Way P asked second others lastToo)
    (endsToo : Ends P asked lastToo viewToo) :
    counted P asked last.look ≤ counted P asked lastToo.look ∧
      ∀ view, Ends P asked last view → view = viewToo := by
  induction goes generalizing second others with
  | here walking =>
    refine ⟨alike.counted_look.trans_le goesToo.counted_le, ?_⟩
    intro view ends
    have endsHere := alike.ends ends
    cases goesToo with
    | here =>
      exact endsHere.unique endsToo
    | on notServed oneWay leaves isNew =>
      exact absurd (endsHere.stops notServed oneWay leaves) isNew
  | @on walking last link rest notServed oneWay leaves isNew further
      inductionHypothesis =>
      cases goesToo with
      | here =>
        have stops := endsToo.stops (alike.atServed ▸ notServed)
          (alike.leaving ▸ oneWay) (alike.leaving ▸ leaves)
        exact absurd (alike.seen ▸ stops) isNew
      | @on _ _ other _ _ _ leavesToo isNewToo furtherToo =>
        have leavesHere : other ∈ leaving P asked walking :=
          alike.leaving ▸ leavesToo
        have same := oneWay link leaves other leavesHere
        refine inductionHypothesis (alike.follow same
          (level [] walking (.here _) link leaves other leavesHere same))
          ?_ furtherToo
        intro way last goes
        exact level (link :: way) last
          (.on notServed oneWay leaves isNew goes)

end Level

/-- A walk answers the same in every order its links may be served in. -/
def OrderFree (P : Primitives) (asked : Asked) : Prop :=
  ∀ links, links.Perm asked.links →
    viewOf (successionPath P (asked.ordered links) .empty).answer =
      viewOf (successionPath P asked .empty).answer

section Plain

variable {P : Primitives} {asked : Asked}

theorem plain_of_apart
    (apart : Set.InjOn P.sha256 asked.hashes)
    {links : List (Option ServedLink)}
    (perm : links.Perm asked.links) :
    (successionPath P (asked.ordered links) .empty).answer =
      (walk P (answering (verifies P asked.userId)) (asked.ordered links)
        ()).answer := by
  have fresh : Honest P asked.hashes .empty := by
    intro key held found
    cases found
  refine (fresh.successionPath apart ?_).1
  rintro bytes ⟨consent, link, read, rfl⟩
  exact ⟨consent, link, (perm.filterMap snapshot).subset read, rfl⟩

theorem within_of_answer
    (fewCount : (walk P (answering (verifies P asked.userId)) asked
      ()).answer ≠ .tooMany) :
    counted P asked asked.begin ≤ MAX_SUCCESSION_LINKS := by
  by_contra beyond
  refine fewCount ?_
  rw [walk, if_pos (not_le.mp beyond)]

theorem answer_of_few
    {links : List (Option ServedLink)}
    (few : asked.links.length ≤ MAX_SUCCESSION_LINKS)
    (perm : links.Perm asked.links) :
    (walk P (answering (verifies P asked.userId)) (asked.ordered links)
      ()).answer ≠ .tooMany := by
  have fewCount : FewCount P asked := fun _ last _ =>
    (countP_le_length.trans (length_filterMap_le _ _)).trans few
  obtain ⟨_, _, _, ends⟩ := fewCount.walk_ends perm
  intro tooMany
  rw [tooMany] at ends
  cases ends

theorem Level.endsAlike
    (level : Level P asked)
    (fewCount : (walk P (answering (verifies P asked.userId)) asked
      ()).answer ≠ .tooMany) :
    EndsAlike P asked ∧ FewCount P asked := by
  have same : Alike asked.begin asked.begin := ⟨rfl, rfl, rfl, rfl⟩
  refine ⟨?_, fun way last goes => ?_⟩
  · intro way others last lastToo view viewToo goes ends goesToo endsToo
    exact (Way.alike same level goes goesToo endsToo).2 view ends
  · obtain ⟨others, lastToo, goesToo, ⟨_, capped⟩ | ⟨few, endsToo⟩⟩ :=
      walk_ends (P := P) (List.Perm.refl asked.links)
        (within_of_answer fewCount)
    · exact absurd capped fewCount
    · exact (Way.alike same level goes goesToo endsToo).1.trans few

end Plain

/--
For links of which few enough count as they are served, a walk answers the same
in every order exactly where every way along the verified links ends alike and
no way makes too many count; so wherever verified links from one place to the
same keys carry one new version.
-/
theorem order_free_iff
    (P : Primitives)
    (asked : Asked)
    (apart : Set.InjOn P.sha256 asked.hashes)
    (fewCount : (successionPath P asked .empty).answer ≠ .tooMany) :
    (OrderFree P asked ↔ EndsAlike P asked ∧ FewCount P asked) ∧
      (Level P asked → OrderFree P asked) := by
  have asServed := plain_of_apart apart (List.Perm.refl asked.links)
  rw [show asked.ordered asked.links = asked from rfl] at asServed
  have fewPlain := asServed ▸ fewCount
  have orderFree : EndsAlike P asked ∧ FewCount P asked →
      OrderFree P asked := by
    rintro ⟨alike, few⟩ links perm
    obtain ⟨way, last, goes, ends⟩ := few.walk_ends perm
    obtain ⟨others, lastToo, goesToo, endsToo⟩ :=
      few.walk_ends (List.Perm.refl asked.links)
    rw [plain_of_apart apart perm, asServed]
    exact alike _ _ _ _ _ _ goes ends goesToo endsToo
  refine ⟨⟨fun same => ?_, orderFree⟩,
    fun level => orderFree (level.endsAlike fewPlain)⟩
  -- Each way is gone in some order, and every order ends as this one does.
  have gone : ∀ way last, Way P asked asked.begin way last →
      counted P asked last.look ≤ MAX_SUCCESSION_LINKS ∧
        ∀ view, Ends P asked last view →
          viewOf (successionPath P asked .empty).answer = view := by
    intro way last goes
    obtain ⟨links, others, perm, served⟩ := goes.exists_order
    have alike := same links perm
    rw [plain_of_apart apart perm] at alike
    rcases goes.gone perm served with capped | ⟨within, ends⟩
    · rw [capped] at alike
      refine absurd ?_ fewCount
      revert alike
      cases (successionPath P asked .empty).answer <;> simp [viewOf]
    · exact ⟨within, fun view isView => alike ▸ ends view isView⟩
  refine ⟨?_, fun way last goes => (gone way last goes).1⟩
  intro way others last lastToo view viewToo goes ends goesToo endsToo
  rw [← (gone way last goes).2 view ends,
    ← (gone others lastToo goesToo).2 viewToo endsToo]

theorem sampleAsked_hashes :
    Set.InjOn (listing sampleHashes).sha256 sampleAsked.hashes := by
  refine sampleAsked_apart.mono ?_
  rintro bytes ⟨consent, link, read, rfl⟩
  rw [readable_sampleAsked] at read
  refine mem_flatMap.mpr ⟨link, read, ?_⟩
  cases consent with
  | true => exact mem_cons_self
  | false => exact mem_cons_of_mem _ mem_cons_self

theorem leaving_sample
    {walking : Walking}
    (signed : walking.consenting = false) :
    leaving (listing sampleHashes) sampleAsked walking =
      sampleLinks.filter
        (continues (listing sampleHashes) sampleAsked.start walking.at_) := by
  rw [leaving, continuing, readable_sampleAsked, signed]
  refine filter_eq_self.mpr fun link continuing => ?_
  have member := (mem_filter.mp continuing).1
  simp only [sampleLinks, mem_cons, not_mem_nil, or_false] at member
  rcases member with rfl | rfl | rfl <;>
    exact verifies_toyLink (by decide) (by decide) (by decide) (by decide)

theorem leaving_start :
    leaving (listing sampleHashes) sampleAsked sampleAsked.begin =
      [toyLink 1 2 1 2, toyLink 1 2 1 4] := by
  rw [leaving_sample rfl, sampleLinks]
  simp only [filter_cons, filter_nil, continues, Asked.begin,
    sampleAsked, leavesSet_toyLink (show 1 < 256 by decide)
      (show 1 < 256 by decide),
    leavesSet_toyLink (show 2 < 256 by decide) (show 1 < 256 by decide)]
  rfl

theorem leaving_second
    {walking : Walking}
    {newVersion : Int}
    (signed : walking.consenting = false)
    (isAt : walking.at_ = some (toyLink 1 2 1 newVersion)) :
    leaving (listing sampleHashes) sampleAsked walking =
      if newVersion ≤ 3 then [toyLink 2 3 3 5] else [] := by
  rw [leaving_sample signed, sampleLinks, isAt]
  simp only [filter_cons, filter_nil, continues,
    leavesLink_toyLink (show 1 < 256 by decide) (show 2 < 256 by decide),
    leavesLink_toyLink (show 2 < 256 by decide) (show 2 < 256 by decide)]
  by_cases lower : newVersion ≤ 3 <;> simp [toyLink, lower]

theorem leaving_last
    {walking : Walking}
    (signed : walking.consenting = false)
    (isAt : walking.at_ = some (toyLink 2 3 3 5)) :
    leaving (listing sampleHashes) sampleAsked walking = [] := by
  rw [leaving_sample signed, sampleLinks, isAt]
  simp only [filter_cons, filter_nil, continues,
    leavesLink_toyLink (show 1 < 256 by decide) (show 3 < 256 by decide),
    leavesLink_toyLink (show 2 < 256 by decide) (show 3 < 256 by decide)]
  rfl

theorem notServed_sample
    {at_ : Option SuccessionLink}
    (isAt : at_ = none ∨ ∃ newVersion, at_ = some (toyLink 1 2 1 newVersion)) :
    atServed (listing sampleHashes) sampleAsked at_ = false := by
  rcases isAt with rfl | ⟨newVersion, rfl⟩
  · have differs := (@bytesText_inj 32 1 3 (by decide) (by decide)
      (by decide)).not.mpr (by decide)
    simp [atServed, sampleAsked, toyPinned, toyKeys, differs]
  · have differs : toyKeys 2 ≠ toyKeys 3 :=
      (toyKeys_inj (by decide) (by decide)).not.mpr (by decide)
    rw [atServed, keysOf_toyLink]
    exact decide_eq_false differs

theorem way_sample
    {newVersion : Int}
    (listed : newVersion = 2 ∨ newVersion = 4)
    {rest : List SuccessionLink}
    {last : Walking}
    (further : Way (listing sampleHashes) sampleAsked
      (sampleAsked.begin.look.follow (listing sampleHashes) sampleAsked
        (toyLink 1 2 1 newVersion)) rest last) :
    Way (listing sampleHashes) sampleAsked sampleAsked.begin
      (toyLink 1 2 1 newVersion :: rest) last := by
  refine .on (notServed_sample (.inl rfl)) ?_ ?_ not_mem_nil further
  · rw [leaving_start]
    intro link member other memberToo
    simp only [mem_cons, not_mem_nil, or_false] at member memberToo
    rcases member with rfl | rfl <;> rcases memberToo with rfl | rfl <;> rfl
  · rw [leaving_start]
    rcases listed with rfl | rfl <;> simp

/-- The sample's way over both of its links. -/
theorem way_on :
    ∃ last, Way (listing sampleHashes) sampleAsked sampleAsked.begin
        [toyLink 1 2 1 2, toyLink 2 3 3 5] last ∧
      Ends (listing sampleHashes) sampleAsked last
        (.path [toyKeys 2, toyKeys 3]) := by
  have leaves := @leaving_second (sampleAsked.begin.look.follow
    (listing sampleHashes) sampleAsked (toyLink 1 2 1 2)) 2
      rfl rfl
  rw [if_pos (by decide)] at leaves
  refine ⟨_, way_sample (.inl rfl) (.on
    (notServed_sample (.inr ⟨2, rfl⟩)) ?_ ?_ ?_ (.here _)), ?_⟩
  · rw [leaves]
    intro link member other memberToo
    rw [mem_singleton.mp member, mem_singleton.mp memberToo]
  · rw [leaves]
    exact mem_singleton_self _
  · have differs : toyKeys 3 ≠ toyKeys 2 :=
      (toyKeys_inj (by decide) (by decide)).not.mpr (by decide)
    simp [Walking.follow, Walking.look, Asked.begin, differs]
  · refine .arrived ?_ (leaving_last rfl rfl) (Option.some_ne_none _)
    rw [show (Walking.follow _ _ _ (toyLink 2 3 3 5)).at_ =
      some (toyLink 2 3 3 5) from rfl, atServed, keysOf_toyLink]
    exact decide_eq_true rfl

theorem way_off :
    ∃ last, Way (listing sampleHashes) sampleAsked sampleAsked.begin
        [toyLink 1 2 1 4] last ∧
      Ends (listing sampleHashes) sampleAsked last .none := by
  have leaves := @leaving_second (sampleAsked.begin.look.follow
    (listing sampleHashes) sampleAsked (toyLink 1 2 1 4)) 4
      rfl rfl
  rw [if_neg (by decide)] at leaves
  refine ⟨_, way_sample (.inr rfl) (.here _),
    .nowhere (notServed_sample (.inr ⟨4, rfl⟩)) ?_ ?_⟩
  · rw [leaves]
    exact fun _ none_ => absurd none_ not_mem_nil
  · rw [leaves]
    exact fun _ none_ => absurd none_ not_mem_nil

/-- Served the other way round, the sample's links are no path any more. -/
theorem reversing_ends_walk :
    sampleAsked.links.reverse.Perm sampleAsked.links ∧
      viewOf (successionPath (listing sampleHashes) sampleAsked .empty).answer =
        .path [toyKeys 2, toyKeys 3] ∧
      viewOf (successionPath (listing sampleHashes)
        (sampleAsked.ordered sampleAsked.links.reverse) .empty).answer =
          .none := by
  have few : sampleAsked.links.length ≤ MAX_SUCCESSION_LINKS := by decide
  have asServed := List.Perm.refl sampleAsked.links
  have reversed := reverse_perm sampleAsked.links
  refine ⟨reversed, ?_, ?_⟩
  · obtain ⟨last, goes, ends⟩ := way_on
    have plain := plain_of_apart sampleAsked_hashes asServed
    rw [show sampleAsked.ordered sampleAsked.links = sampleAsked from rfl]
      at plain
    rw [plain]
    rcases @Way.gone _ _ _ _ [toyLink 1 2 1 4] _ goes asServed
      readable_sampleAsked with tooMany | ⟨_, alike⟩
    · exact absurd tooMany (answer_of_few few asServed)
    · exact alike _ ends
  · obtain ⟨last, goes, ends⟩ := way_off
    rw [plain_of_apart sampleAsked_hashes reversed]
    rcases @Way.gone _ _ _ _ [toyLink 2 3 3 5, toyLink 1 2 1 2] _ goes reversed
      (by simp [Asked.readable, Asked.ordered, sampleAsked, sampleLinks])
      with tooMany | ⟨_, alike⟩
    · exact absurd tooMany (answer_of_few few reversed)
    · exact alike _ ends

/-- The sample without its second link from the first keys to the second. -/
def levelAsked : Asked :=
  { sampleAsked with
    links := [toyLink 1 2 1 2, toyLink 2 3 3 5].map servedLink }

theorem readable_levelAsked :
    levelAsked.readable = [toyLink 1 2 1 2, toyLink 2 3 3 5] := by
  simp [Asked.readable, levelAsked]

theorem levelAsked_hashes :
    Set.InjOn (listing sampleHashes).sha256 levelAsked.hashes := by
  refine sampleAsked_hashes.mono ?_
  rintro bytes ⟨consent, link, read, rfl⟩
  refine ⟨consent, link, ?_, rfl⟩
  rw [readable_levelAsked] at read
  rw [readable_sampleAsked]
  exact (by simp [sampleLinks] : [toyLink 1 2 1 2, toyLink 2 3 3 5] ⊆ sampleLinks)
    read

theorem level_levelAsked : Level (listing sampleHashes) levelAsked := by
  have listed : ∀ {walking link},
      link ∈ leaving (listing sampleHashes) levelAsked walking →
        link = toyLink 1 2 1 2 ∨ link = toyLink 2 3 3 5 := by
    intro walking link isLeaving
    have isRead := mem_of_mem_filter (mem_of_mem_filter isLeaving)
    rw [readable_levelAsked] at isRead
    simpa using isRead
  have differs : toyKeys 2 ≠ toyKeys 3 :=
    (toyKeys_inj (by decide) (by decide)).not.mpr (by decide)
  intro way last _ link isLeaving other otherLeaving same
  rcases listed isLeaving with rfl | rfl <;>
    rcases listed otherLeaving with rfl | rfl
  · rfl
  · exact absurd same differs
  · exact absurd same.symm differs
  · rfl

/--
Not every way along the sample's links ends alike, so their order counts; with
one link between two keys it does not.
-/
theorem order_free_iff_sample :
    ¬ OrderFree (listing sampleHashes) sampleAsked ∧
      ¬ Level (listing sampleHashes) sampleAsked ∧
      OrderFree (listing sampleHashes) levelAsked := by
  have plain := plain_of_apart sampleAsked_hashes
    (List.Perm.refl sampleAsked.links)
  rw [show sampleAsked.ordered sampleAsked.links = sampleAsked from rfl]
    at plain
  obtain ⟨free, level⟩ := order_free_iff (listing sampleHashes) sampleAsked
    sampleAsked_hashes (by
      rw [plain]
      exact answer_of_few (by decide) (List.Perm.refl _))
  have unlike : ¬ OrderFree (listing sampleHashes) sampleAsked := by
    intro same
    obtain ⟨last, goes, ends⟩ := way_on
    obtain ⟨lastToo, goesToo, endsToo⟩ := way_off
    cases (free.mp same).1 _ _ _ _ _ _ goes ends goesToo endsToo
  have plainToo := plain_of_apart levelAsked_hashes
    (List.Perm.refl levelAsked.links)
  rw [show levelAsked.ordered levelAsked.links = levelAsked from rfl]
    at plainToo
  have alike := (order_free_iff (listing sampleHashes) levelAsked
    levelAsked_hashes (by
      rw [plainToo]
      exact answer_of_few (by decide) (List.Perm.refl _))).2 level_levelAsked
  exact ⟨unlike, fun isLevel => unlike (level isLevel), alike⟩

end Identities

end HushOS
