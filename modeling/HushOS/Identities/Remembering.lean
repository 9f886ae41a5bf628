import HushOS.Identities.ToyLinks

namespace HushOS

open Toolkit List OrderedMap

/-!
# Remembering changes nothing

A walk over what earlier walks remembered answers what it would answer
remembering nothing, whoever they asked about and whatever was forgotten
since: a result is found again only under the very fields it is of.  Links
that join nothing a walk follows change nothing either.
-/

/-- Hex texts are of one list of bytes. -/
theorem hexOf_injective : Function.Injective hexOf := by
  have digits : ∀ first < 16, ∀ second < 16,
      Nat.digitChar first = Nat.digitChar second → first = second := by
    decide
  have pairs : ∀ first second : UInt8,
      hexPair first = hexPair second → first = second := by
    intro first second same
    have low := first.toNat_lt
    have lowToo := second.toNat_lt
    simp only [hexPair, List.cons.injEq, and_true] at same
    have high := digits _ (by omega) _ (by omega) same.1
    have rest := digits _ (by omega) _ (by omega) same.2
    exact UInt8.toNat_inj.mp (by omega)
  intro first second same
  have flat := String.ofList_injective same
  clear same
  induction first generalizing second with
  | nil =>
    cases second with
    | nil =>
      rfl
    | cons other others =>
      simp [hexPair] at flat
  | cons byte rest inductionHypothesis =>
    cases second with
    | nil =>
      simp [hexPair] at flat
    | cons other others =>
      rw [flatMap_cons, flatMap_cons] at flat
      obtain ⟨sameByte, sameRest⟩ := append_inj flat rfl
      rw [pairs _ _ sameByte, inductionHypothesis sameRest]

namespace Identities

/-- A memory that remembers nothing, and answers as asked to. -/
def answering (answer : Bool → SuccessionLink → Bool) :
    Unit → Bool → SuccessionLink → Bool × Unit :=
  fun _ consenting link => (answer consenting link, ())

section Answers

variable
  {P : Primitives}
  {σ : Type}
  {holds : σ → Bool → SuccessionLink → Bool × σ}
  {answer : Bool → SuccessionLink → Bool}
  {invariant : σ → Prop}
  {asked : Asked}

theorem holding_answering
    (consenting : Bool)
    (links : List SuccessionLink) :
    (holding (answering answer) consenting links ()).1 =
      links.filter (answer consenting) := by
  induction links with
  | nil =>
    rfl
  | cons link rest inductionHypothesis =>
    rw [filter_cons, ← inductionHypothesis]
    rfl

variable {memory : σ}

/-- Where memory answers as checking does, the same links hold. -/
theorem holding_of_answers
    (consenting : Bool)
    {links : List SuccessionLink}
    (answers : ∀ memory, ∀ link ∈ links, invariant memory →
      (holds memory consenting link).1 = answer consenting link ∧
        invariant (holds memory consenting link).2)
    (kept : invariant memory) :
    (holding holds consenting links memory).1 =
        links.filter (answer consenting) ∧
      invariant (holding holds consenting links memory).2 := by
  induction links generalizing memory with
  | nil =>
    exact ⟨rfl, kept⟩
  | cons link rest inductionHypothesis =>
    obtain ⟨answered, keptNext⟩ :=
      answers memory link mem_cons_self kept
    obtain ⟨others, keptLast⟩ := inductionHypothesis
      (fun memory other member =>
        answers memory other (mem_cons_of_mem _ member)) keptNext
    refine ⟨?_, keptLast⟩
    rw [filter_cons, ← others, ← answered]
    rfl

/-- Where memory answers as checking does, the walk is the same. -/
theorem walkFrom_of_answers
    (answers : ∀ memory consenting, ∀ link ∈ asked.readable,
      invariant memory →
        (holds memory consenting link).1 = answer consenting link ∧
          invariant (holds memory consenting link).2)
    (steps : Nat)
    {walking : Walking}
    (kept : invariant memory) :
    (walkFrom P holds asked steps walking memory).answer =
        (walkFrom P (answering answer) asked steps walking ()).answer ∧
      (walkFrom P holds asked steps walking memory).walking =
        (walkFrom P (answering answer) asked steps walking ()).walking ∧
      invariant (walkFrom P holds asked steps walking memory).memory := by
  induction steps generalizing walking memory with
  | zero =>
    exact ⟨rfl, rfl, kept⟩
  | succ steps inductionHypothesis =>
    have answersHere : ∀ memory, ∀ link ∈ continuing P asked walking,
        invariant memory →
          (holds memory walking.consenting link).1 =
              answer walking.consenting link ∧
            invariant (holds memory walking.consenting link).2 :=
      fun memory link member => answers memory walking.consenting link
        (mem_of_mem_filter member)
    obtain ⟨same, keptNext⟩ :=
      holding_of_answers walking.consenting answersHere kept
    rw [walkFrom, walkFrom]
    split
    · exact ⟨rfl, rfl, kept⟩
    · dsimp only
      rw [same, holding_answering]
      split
      · exact ⟨rfl, rfl, keptNext⟩
      · exact inductionHypothesis keptNext

theorem walk_of_answers
    (answers : ∀ memory consenting, ∀ link ∈ asked.readable,
      invariant memory →
        (holds memory consenting link).1 = answer consenting link ∧
          invariant (holds memory consenting link).2)
    (kept : invariant memory) :
    (walk P holds asked memory).answer =
        (walk P (answering answer) asked ()).answer ∧
      (walk P holds asked memory).walking =
        (walk P (answering answer) asked ()).walking ∧
      invariant (walk P holds asked memory).memory := by
  unfold walk
  split
  · exact ⟨rfl, rfl, kept⟩
  · exact walkFrom_of_answers answers _ kept

end Answers

theorem fields_injective : Function.Injective fields := by
  intro first second same
  obtain ⟨⟩ := first
  obtain ⟨⟩ := second
  simp only [fields, List.cons.injEq, Json.Scalar.integer.injEq,
    Json.Scalar.text.injEq, and_true] at same
  obtain ⟨rfl, rfl, rfl, rfl, rfl, rfl, rfl, rfl, rfl, rfl, sameConsent⟩ := same
  congr
  split at sameConsent <;> split at sameConsent <;> simp_all

theorem verifiedOver_injective
    {userId other : String}
    {consent consentToo : Bool}
    {link linkToo : SuccessionLink}
    (same : verifiedOver userId consent link =
      verifiedOver other consentToo linkToo) :
    userId = other ∧ consent = consentToo ∧ link = linkToo := by
  have decoded := congrArg Utf8.decode same
  rw [verifiedOver, verifiedOver, Utf8.decode_encode, Utf8.decode_encode,
    Option.some.injEq] at decoded
  have items := Json.stringify_injective decoded
  simp only [List.cons.injEq, Json.Scalar.text.injEq,
    Json.Scalar.bool.injEq] at items
  exact ⟨items.1, items.2.1, fields_injective items.2.2⟩

/-- What a walk may hash to remember results by. -/
def Asked.hashes (asked : Asked) : Set Bytes :=
  { bytes | ∃ consent, ∃ link ∈ asked.readable,
    bytes = verifiedOver asked.userId consent link }

section Honest

variable {P : Primitives} {hashes : Set Bytes}

/-- Every result remembered is of what it is remembered by. -/
def Honest (P : Primitives) (hashes : Set Bytes) (verified : Verified) : Prop :=
  ∀ key held, verified.get? key = some held →
    ∃ userId consent link, verifiedOver userId consent link ∈ hashes ∧
      verifiedKey P userId consent link = key ∧
      verifies P userId consent link = held

variable {verified : Verified}

theorem get?_dropOldest
    {key : String}
    {held : Bool}
    (found : (dropOldest verified).get? key = some held) :
    verified.get? key = some held := by
  rw [get?_eq_some] at found ⊢
  simp only [dropOldest] at found
  exact mem_of_mem_drop found

theorem size_dropOldest (verified : Verified) :
    (dropOldest verified).size ≤ MAX_VERIFIED_LINKS := by
  rw [OrderedMap.size, dropOldest, length_drop, OrderedMap.size]
  omega

/-- What is remembered was so before or is the answer just given. -/
theorem get?_remembered
    {userId key : String}
    {consent held : Bool}
    {link : SuccessionLink}
    (found : (remembered P userId verified consent link).2.get? key =
      some held) :
    verified.get? key = some held ∨
      key = verifiedKey P userId consent link ∧
        (remembered P userId verified consent link).1 = held := by
  unfold remembered at found ⊢
  dsimp only at found ⊢
  split at found
  · next known _ =>
      have placed := get?_dropOldest found
      rw [get?_set, get?_erase] at placed
      split at placed
      · next same =>
          exact .inr ⟨same, Option.some.inj placed⟩
      · exact .inl placed
  · have placed := get?_dropOldest found
    rw [get?_set] at placed
    split at placed
    · next same =>
        exact .inr ⟨same, Option.some.inj placed⟩
    · exact .inl placed

/-- Honest memory answers as checking does and stays honest. -/
theorem Honest.remembered
    {userId : String}
    {consent : Bool}
    {link : SuccessionLink}
    (honest : Honest P hashes verified)
    (apart : Set.InjOn P.sha256 hashes)
    (hashed : verifiedOver userId consent link ∈ hashes) :
    (remembered P userId verified consent link).1 =
        verifies P userId consent link ∧
      Honest P hashes (remembered P userId verified consent link).2 := by
  have truth : (Identities.remembered P userId verified consent link).1 =
      verifies P userId consent link := by
    unfold Identities.remembered
    dsimp only
    split
    · next held found =>
        obtain ⟨other, consentToo, linkToo, hashedToo, sameKey, rfl⟩ :=
          honest _ _ found
        have sameHash := hexOf_injective sameKey
        obtain ⟨rfl, rfl, rfl⟩ :=
          verifiedOver_injective (apart hashedToo hashed sameHash)
        rfl
    · rfl
  refine ⟨truth, fun key held found => ?_⟩
  rcases get?_remembered found with before | ⟨rfl, isHeld⟩
  · exact honest key held before
  · exact ⟨userId, consent, link, hashed, rfl, truth.symm.trans isHeld⟩

end Honest

/-- What may happen to a shared memory. -/
inductive MemoryStep where
  | asks (asked : Asked)
  | evicts (key : String)

/-- What walks among some steps may hash. -/
def hashesOf (steps : List MemoryStep) : Set Bytes :=
  { bytes | ∃ asked, .asks asked ∈ steps ∧ bytes ∈ asked.hashes }

section Shared

variable (P : Primitives)

/-- What is remembered after a step. -/
def remember (verified : Verified) : MemoryStep → Verified
  | .asks asked => (successionPath P asked verified).memory
  | .evicts key => verified.erase key

variable {P}

variable {verified : Verified}

/-- A path walked with honest memory is the one walked without. -/
theorem Honest.successionPath
    {hashes : Set Bytes}
    {asked : Asked}
    (honest : Honest P hashes verified)
    (apart : Set.InjOn P.sha256 hashes)
    (hashed : asked.hashes ⊆ hashes) :
    (successionPath P asked verified).answer =
        (walk P (answering (verifies P asked.userId)) asked ()).answer ∧
      Honest P hashes (successionPath P asked verified).memory := by
  have answers : ∀ memory consent, ∀ link ∈ asked.readable,
      Honest P hashes memory →
        (Identities.remembered P asked.userId memory consent link).1 =
            verifies P asked.userId consent link ∧
          Honest P hashes
            (Identities.remembered P asked.userId memory consent link).2 :=
    fun _ consent link member honest =>
      honest.remembered apart (hashed ⟨consent, link, member, rfl⟩)
  obtain ⟨answer, _, left⟩ := walk_of_answers (P := P) answers honest
  exact ⟨answer, left⟩

/-- Memory filled by any run of checks is honest. -/
theorem honest_run
    {hashes : Set Bytes}
    (apart : Set.InjOn P.sha256 hashes)
    {steps : List MemoryStep}
    (hashed : hashesOf steps ⊆ hashes) :
    Honest P hashes (Runs.run (remember P) .empty steps) := by
  have each : Runs.Each (remember P) (fun _ next => ∀ asked,
      next = .asks asked → asked.hashes ⊆ hashes) .empty steps := by
    rw [Runs.each_iff]
    rintro earlier next started asked rfl bytes isHash
    exact hashed ⟨asked, started.subset (by simp), isHash⟩
  refine Runs.keeps_of_each (Honest P hashes) ?_ each ?_
  · intro verified next meets honest
    cases next with
    | asks asked =>
      exact (honest.successionPath apart (meets asked rfl)).2
    | evicts key =>
      intro query held found
      rw [remember, get?_erase] at found
      split at found
      · cases found
      · exact honest query held found
  · intro key held found
    cases found

theorem size_holding
    {userId : String}
    {consenting : Bool}
    {links : List SuccessionLink}
    (within : verified.size ≤ MAX_VERIFIED_LINKS) :
    (holding (remembered P userId) consenting links verified).2.size ≤
      MAX_VERIFIED_LINKS := by
  induction links generalizing verified with
  | nil =>
    exact within
  | cons link rest inductionHypothesis =>
    refine inductionHypothesis ?_
    unfold remembered
    dsimp only
    split <;> exact size_dropOldest _

theorem size_walkFrom
    {asked : Asked}
    {userId : String}
    (steps : Nat)
    {walking : Walking}
    (within : verified.size ≤ MAX_VERIFIED_LINKS) :
    (walkFrom P (remembered P userId) asked steps walking
      verified).memory.size ≤ MAX_VERIFIED_LINKS := by
  induction steps generalizing walking verified with
  | zero =>
    exact within
  | succ steps inductionHypothesis =>
    rw [walkFrom]
    split
    · exact within
    · dsimp only
      split
      · exact size_holding within
      · exact inductionHypothesis (size_holding within)

theorem size_run (steps : List MemoryStep) :
    (Runs.run (remember P) .empty steps).size ≤ MAX_VERIFIED_LINKS := by
  refine Runs.keeps_of_step
    (fun verified : Verified => verified.size ≤ MAX_VERIFIED_LINKS)
    (fun verified next within => ?_) steps (Nat.zero_le _)
  cases next with
  | asks asked =>
    rw [remember, successionPath, walk]
    split
    · exact within
    · exact size_walkFrom _ within
  | evicts key =>
    rw [remember, ← length_keys, keys_erase]
    rw [← length_keys] at within
    exact (length_filter_le _ _).trans within

end Shared

section Steps

variable
  {P : Primitives}
  {σ : Type}
  {holds : σ → Bool → SuccessionLink → Bool × σ}
  {asked : Asked}

theorem holding_sublist
    (consenting : Bool)
    (links : List SuccessionLink)
    (memory : σ) :
    (holding holds consenting links memory).1.Sublist links := by
  induction links generalizing memory with
  | nil =>
    exact List.Sublist.slnil
  | cons link rest inductionHypothesis =>
    have others := inductionHypothesis (holds memory consenting link).2
    rw [holding]
    dsimp only
    split
    · exact others.cons_cons link
    · exact others.cons link

theorem mem_readable_of_leaving
    {consenting : Bool}
    {walking : Walking}
    {memory : σ}
    {link : SuccessionLink}
    {rest : List SuccessionLink}
    (leaving : (holding holds consenting (continuing P asked walking)
      memory).1 = link :: rest) :
    link ∈ asked.readable := by
  have member : link ∈ (holding holds consenting
      (continuing P asked walking) memory).1 := by
    rw [leaving]
    exact mem_cons_self
  exact mem_of_mem_filter ((holding_sublist _ _ _).subset member)

/-- A walk goes on when its links lead one way to unseen keys. -/
theorem settle_eq_inr
    {walking next : Walking}
    {leaving : List SuccessionLink} :
    settle P asked walking leaving = .inr next ↔
      atServed P asked walking.at_ = false ∧
        (leaving.map keysOf).dedup.length ≤ 1 ∧
        ∃ link rest, leaving = link :: rest ∧ keysOf link ∉ walking.seen ∧
          next = walking.follow P asked link := by
  unfold settle
  split
  · next served =>
      simp [served]
  · next notServed =>
      split
      · next forked =>
          simp [not_le.mpr forked]
      · next single =>
          rw [not_lt] at single
          split
          · simp
          · next link rest =>
              split
              · next seen =>
                  simp [seen]
              · next unseen =>
                  rw [Bool.not_eq_true] at notServed
                  rw [map_cons] at single
                  simp [notServed, single, unseen, eq_comm]

/-- How many links lead to keys a walk has not seen. -/
def unseen (asked : Asked) (walking : Walking) : Nat :=
  (asked.readable.filter fun link => keysOf link ∉ walking.seen).length

theorem unseen_follow
    {walking : Walking}
    {link : SuccessionLink}
    (listed : link ∈ asked.readable)
    (isNew : keysOf link ∉ walking.seen) :
    unseen asked (walking.follow P asked link) < unseen asked walking := by
  have fewer : (asked.readable.filter fun other =>
      keysOf other ∉ (walking.follow P asked link).seen) =
      (asked.readable.filter fun other => keysOf other ∉ walking.seen).filter
        fun other => keysOf other ≠ keysOf link := by
    rw [filter_filter]
    refine filter_congr fun other _ => ?_
    simp [Walking.follow, and_comm]
  rw [unseen, fewer]
  exact length_filter_lt_length_iff_exists.mpr
    ⟨link, by simp [listed, isNew], by simp⟩

theorem unseen_begin (asked : Asked) :
    unseen asked asked.begin ≤ asked.links.length :=
  (length_filter_le _ _).trans (length_filterMap_le _ _)

theorem path_prefix_walkFrom
    (steps : Nat)
    (walking : Walking)
    (memory : σ) :
    walking.path <+:
      (walkFrom P holds asked steps walking memory).walking.path := by
  induction steps generalizing walking memory with
  | zero =>
    exact prefix_rfl
  | succ steps inductionHypothesis =>
    rw [walkFrom]
    split
    · exact prefix_rfl
    · dsimp only
      split
      · exact prefix_rfl
      · next settled =>
          obtain ⟨_, _, link, _, _, _, rfl⟩ := settle_eq_inr.mp settled
          have further := inductionHypothesis
            (walking.look.follow P asked link)
            (holding holds walking.consenting (continuing P asked walking)
              memory).2
          exact (prefix_append walking.path [link]).trans further

/-- A walk follows only links it was given. -/
theorem path_subset_walkFrom
    (steps : Nat)
    (walking : Walking)
    (memory : σ)
    (within : walking.path ⊆ asked.readable) :
    (walkFrom P holds asked steps walking memory).walking.path ⊆
      asked.readable := by
  induction steps generalizing walking memory with
  | zero =>
    exact within
  | succ steps inductionHypothesis =>
    rw [walkFrom]
    split
    · exact within
    · dsimp only
      split
      · exact within
      · next settled =>
          obtain ⟨_, _, link, _, isLeaving, _, rfl⟩ :=
            settle_eq_inr.mp settled
          have listed := mem_readable_of_leaving isLeaving
          exact inductionHypothesis _ _ (append_subset.mpr
            ⟨within, cons_subset.mpr ⟨listed, nil_subset _⟩⟩)

theorem path_subset_successionPath (verified : Verified) :
    (successionPath P asked verified).walking.path ⊆ asked.readable := by
  rw [successionPath, walk]
  split
  · exact nil_subset _
  · exact path_subset_walkFrom _ _ _ (nil_subset _)

end Steps

/-- A link leaving neither the start, a member's keys nor a link followed. -/
def Junk
    (P : Primitives)
    (asked : Asked)
    (followed : List SuccessionLink)
    (link : SuccessionLink) : Prop :=
  (∀ keys ∈ asked.start :: asked.memberKeys, leavesSet P link keys = false) ∧
    ∀ at_ ∈ followed, leavesLink link at_ = false

/-- A walk's places are the start and the links it followed. -/
structure Tracks (walking : Walking) : Prop where
  at_ : ∀ {link}, walking.at_ = some link → link ∈ walking.path
  looked : ∀ {link}, some link ∈ walking.looked → link ∈ walking.path

/-- What is served beside some links, where each was added or not. -/
def Asked.among (asked : Asked) (served : List (Option ServedLink × Bool)) :
    Asked :=
  { asked with links := served.map Prod.fst }

section Added

variable
  {P : Primitives}
  {σ : Type}
  {holds : σ → Bool → SuccessionLink → Bool × σ}
  {asked : Asked}
  {served : List (Option ServedLink × Bool)}

/-- Links that fail a test are junk to its filter. -/
theorem filter_among
    (kept : (served.filter fun item => !item.2).map Prod.fst = asked.links)
    (passes : SuccessionLink → Bool)
    (fails : ∀ item ∈ served, item.2 = true →
      ∀ link, snapshot item.1 = some link → passes link = false) :
    (asked.among served).readable.filter passes =
      asked.readable.filter passes := by
  rw [Asked.readable, Asked.readable, ← kept]
  show ((served.map Prod.fst).filterMap snapshot).filter passes = _
  clear kept
  induction served with
  | nil =>
    rfl
  | cons item rest inductionHypothesis =>
    have others := inductionHypothesis fun other member =>
      fails other (mem_cons_of_mem _ member)
    obtain ⟨link, added⟩ := item
    cases added with
    | false =>
      simp only [map_cons, filter_cons, Bool.not_false,
        ↓reduceIte, filterMap_cons]
      split
      · exact others
      · rw [filter_cons, filter_cons, others]
    | true =>
      simp only [map_cons, filter_cons, Bool.not_true,
        Bool.false_eq_true, ↓reduceIte, filterMap_cons]
      split
      · exact others
      · next read =>
          rw [filter_cons, others,
            fails _ mem_cons_self rfl _ read]
          rfl

theorem Junk.continues_eq_false
    {followed : List SuccessionLink}
    {link : SuccessionLink}
    {at_ : Option SuccessionLink}
    (junk : Junk P asked followed link)
    (place : ∀ last, at_ = some last → last ∈ followed) :
    continues P asked.start at_ link = false := by
  cases at_ with
  | none =>
    rw [continues, junk.1 _ mem_cons_self, Bool.false_and]
  | some last =>
    rw [continues, junk.2 last (place last rfl), Bool.false_and]

/-- Junk among the served links does not change the walk. -/
theorem walkFrom_among
    {followed : List SuccessionLink}
    (kept : (served.filter fun item => !item.2).map Prod.fst = asked.links)
    (junk : ∀ item ∈ served, item.2 = true →
      ∀ link, snapshot item.1 = some link → Junk P asked followed link)
    {steps stepsToo : Nat}
    {walking : Walking}
    {memory : σ}
    (enough : unseen asked walking < steps)
    (enoughToo : unseen asked walking < stepsToo)
    (tracks : Tracks walking)
    (within : (walkFrom P holds asked steps walking memory).walking.path ⊆
      followed) :
    walkFrom P holds (asked.among served) stepsToo walking memory =
      walkFrom P holds asked steps walking memory := by
  induction steps generalizing stepsToo walking memory with
  | zero =>
    exact absurd enough (Nat.not_lt_zero _)
  | succ steps inductionHypothesis =>
    obtain ⟨more, rfl⟩ : ∃ more, stepsToo = more + 1 :=
      ⟨stepsToo - 1, by omega⟩
    have path : walking.path ⊆ followed :=
      List.Subset.trans (path_prefix_walkFrom _ _ _).subset within
    have sameContinuing : continuing P (asked.among served) walking =
        continuing P asked walking :=
      filter_among kept _ fun item member added link read =>
        (junk item member added link read).continues_eq_false
          fun last isLast => path (tracks.at_ isLast)
    have sameCounted : counted P (asked.among served) walking.look =
        counted P asked walking.look := by
      rw [counted, counted, countP_eq_length_filter,
        countP_eq_length_filter]
      refine congrArg List.length (filter_among kept _ ?_)
      intro item member added link read
      have isJunk := junk item member added link read
      rw [counts, Bool.or_eq_false_iff]
      refine ⟨any_eq_false.mpr fun keys listed => ?_,
        any_eq_false.mpr fun at_ listed => ?_⟩
      · simp [isJunk.1 keys listed]
      · show ¬ continues P asked.start at_ link = true
        rw [isJunk.continues_eq_false]
        · exact Bool.false_ne_true
        intro last isLast
        subst isLast
        rcases mem_cons.mp listed with isAt | earlier
        · exact path (tracks.at_ isAt.symm)
        · exact path (tracks.looked earlier)
    rw [walkFrom] at within ⊢
    rw [walkFrom, sameCounted, sameContinuing]
    split
    · rfl
    · next uncapped =>
        rw [if_neg uncapped] at within
        dsimp only at within ⊢
        have sameSettled : ∀ leaving,
            settle P (asked.among served) walking.look leaving =
              settle P asked walking.look leaving := fun _ => rfl
        rw [sameSettled]
        split
        · rfl
        · next next settled =>
            rw [settled] at within
            obtain ⟨_, _, link, rest, isLeaving, isNew, rfl⟩ :=
              settle_eq_inr.mp settled
            have listed := mem_readable_of_leaving isLeaving
            have fewer := unseen_follow (P := P) listed isNew
            have same : unseen asked walking.look = unseen asked walking :=
              rfl
            refine inductionHypothesis (by omega) (by omega) ⟨?_, ?_⟩ within
            · intro last isLast
              cases isLast
              simp [Walking.follow]
            · intro last isLooked
              rcases mem_cons.mp isLooked with isAt | earlier
              · exact mem_append_left _ (tracks.at_ isAt.symm)
              · exact mem_append_left _ (tracks.looked earlier)

/-- Junk among the served links does not change the answer. -/
theorem walk_among
    {memory : σ}
    (kept : (served.filter fun item => !item.2).map Prod.fst = asked.links)
    (junk : ∀ item ∈ served, item.2 = true →
      ∀ link, snapshot item.1 = some link →
        Junk P asked (walk P holds asked memory).walking.path link) :
    walk P holds (asked.among served) memory = walk P holds asked memory := by
  have sameCounted : counted P (asked.among served) asked.begin =
      counted P asked asked.begin := by
    rw [counted, counted, countP_eq_length_filter,
      countP_eq_length_filter]
    refine congrArg List.length (filter_among kept _ ?_)
    intro item member added link read
    have isJunk := junk item member added link read
    rw [counts, Bool.or_eq_false_iff]
    refine ⟨any_eq_false.mpr fun keys listed => ?_, rfl⟩
    simp [isJunk.1 keys listed]
  have longer : asked.links.length ≤ (asked.among served).links.length := by
    rw [← kept, length_map, Asked.among, length_map]
    exact length_filter_le _ _
  have begun := unseen_begin asked
  unfold walk at junk ⊢
  rw [show (asked.among served).begin = asked.begin from rfl, sameCounted]
  split
  · rfl
  · next uncapped =>
      rw [if_neg uncapped] at junk
      refine walkFrom_among kept junk (by omega) (by omega) ⟨?_, ?_⟩
        (List.Subset.refl _)
      · intro link isAt
        cases isAt
      · intro link isLooked
        cases isLooked

end Added

/--
Sharing a memory changes no walk's answer, as long as SHA-256 keeps apart what
is hashed; the memory stays within its bound; and links that join nothing a
walk follows change nothing of it, wherever they are served.
-/
theorem remembering_changes_nothing
    (P : Primitives)
    (steps : List MemoryStep)
    (asked : Asked)
    (apart : Set.InjOn P.sha256 (hashesOf (steps ++ [.asks asked]))) :
    (successionPath P asked (Runs.run (remember P) .empty steps)).answer =
        (successionPath P asked .empty).answer ∧
      (Runs.run (remember P) .empty steps).size ≤ MAX_VERIFIED_LINKS ∧
      ∀ (verified : Verified) (served : List (Option ServedLink × Bool)),
        (served.filter fun item => !item.2).map Prod.fst = asked.links →
        (∀ item ∈ served, item.2 = true →
          ∀ link, snapshot item.1 = some link →
            Junk P asked (successionPath P asked verified).walking.path
              link) →
        successionPath P (asked.among served) verified =
          successionPath P asked verified := by
  have hashed : asked.hashes ⊆ hashesOf (steps ++ [.asks asked]) :=
    fun bytes isHash => ⟨asked, by simp, isHash⟩
  have earlier : hashesOf steps ⊆ hashesOf (steps ++ [.asks asked]) := by
    rintro bytes ⟨other, listed, isHash⟩
    exact ⟨other, mem_append_left _ listed, isHash⟩
  have honest := honest_run (P := P) apart earlier
  have fresh : Honest P (hashesOf (steps ++ [.asks asked])) .empty := by
    intro key held found
    cases found
  refine ⟨?_, size_run steps, fun verified served kept junk =>
    walk_among kept junk⟩
  rw [(honest.successionPath apart hashed).1,
    (fresh.successionPath apart hashed).1]

/--
The sample's walk answers the same a second time, over what it remembers, and
the same where a link that leaves key 7 is served before the others.
-/
theorem remembering_changes_nothing_sample :
    (successionPath (listing sampleHashes) sampleAsked
        (Runs.run (remember (listing sampleHashes)) .empty
          [.asks sampleAsked])).answer =
      (successionPath (listing sampleHashes) sampleAsked .empty).answer ∧
    successionPath (listing sampleHashes)
        (sampleAsked.among ((servedLink (toyLink 7 8 1 2), true) ::
          sampleAsked.links.map fun link => (link, false))) .empty =
      successionPath (listing sampleHashes) sampleAsked .empty := by
  have apart : Set.InjOn (listing sampleHashes).sha256
      (hashesOf ([.asks sampleAsked] ++ [.asks sampleAsked])) := by
    refine sampleAsked_apart.mono ?_
    rintro bytes ⟨asked, listed, consent, link, read, rfl⟩
    simp only [cons_append, nil_append, mem_cons,
      MemoryStep.asks.injEq, not_mem_nil, or_false, or_self] at listed
    subst listed
    rw [readable_sampleAsked] at read
    refine mem_flatMap.mpr ⟨link, read, ?_⟩
    cases consent with
    | true => exact mem_cons_self
    | false => exact mem_cons_of_mem _ mem_cons_self
  obtain ⟨same, _, among⟩ := remembering_changes_nothing
    (listing sampleHashes) [.asks sampleAsked] sampleAsked apart
  refine ⟨same, among .empty _ ?_ ?_⟩
  · rw [filter_cons_of_neg (by simp), filter_map, map_map]
    simp [Function.comp_def]
  · intro item listed added link read
    rcases mem_cons.mp listed with rfl | old
    · obtain rfl := Option.some.inj ((snapshot_servedLink _).symm.trans read)
      constructor
      · intro keys isStart
        rw [mem_singleton.mp isStart]
        exact leavesSet_toyLink (by decide) (by decide)
      · intro at_ followed
        have listed := path_subset_successionPath _ followed
        rw [readable_sampleAsked] at listed
        simp only [sampleLinks, mem_cons, not_mem_nil, or_false]
          at listed
        rcases listed with rfl | rfl | rfl <;>
          exact leavesLink_toyLink (by decide) (by decide)
    · obtain ⟨_, _, rfl⟩ := mem_map.mp old
      cases added

end Identities

end HushOS
