import HushOS.Content.Readers

namespace HushOS

open Toolkit List

namespace Content

/-!
# What a reader answers

Every fetch in the cache is of the chunk it is kept for, and what it gives is
the file's.  A fetch whose failure was handled is out of the cache for good, so
a later read asks for the chunk again.
-/

section Invariants

/-- What a reader's fetches and its cache are, whatever happened to it. -/
structure Stocked (source : Source) (reader : Reader) : Prop where
  indexed : ∀ fetch ∈ reader.fetches, fetch.index < chunksOver source.length
  given : ∀ fetch ∈ reader.fetches, ∀ bytes,
    fetch.status = .given bytes → bytes = fileChunk source.file fetch.index
  opened : ∀ fetch ∈ reader.fetches, fetch.asked = true →
    reader.opened = .opened
  cached : ∀ entry ∈ reader.cache,
    reader.indexOf entry.2 = some entry.1 ∧
      reader.statusOf entry.2 ≠ some .handled
  few : reader.cache.length ≤ source.cacheChunks

/-- What a read waits for, or was answered. -/
structure Answers (source : Source) (reader : Reader) (read : Read) : Prop where
  waits : read.answer = .pending → ∃ span,
    spanOf source.file.length read.offset read.length = some span ∧
      read.pieces.map reader.indexOf = span.indices.map some
  resolved : ∀ bytes, read.answer = .resolved bytes →
    bytes = bytesFrom source.file read.offset read.length

/-- What a reader is, whatever happened to it. -/
structure SoundReader (source : Source) (reader : Reader) : Prop where
  stocked : Stocked source reader
  answers : ∀ read ∈ reader.reads, Answers source reader read

/-- A chunk is cached by no fetch but those made after the first so many. -/
structure Cleared (index count : Nat) (reader : Reader) : Prop where
  made : count ≤ reader.fetches.length
  cached : ∀ entry ∈ reader.cache, entry.1 = index → count ≤ entry.2

end Invariants

section Asking

variable {source : Source} {reader : Reader}

variable {entry : Nat × Nat} {index : Nat}

theorem find_cached
    (found : (reader.cache.find? fun entry => entry.1 = index) = some entry) :
    entry ∈ reader.cache ∧ entry.1 = index :=
  ⟨mem_of_find?_eq_some found, by simpa using find?_some found⟩

theorem length_without_lt
    (member : entry ∈ reader.cache)
    (isOf : entry.1 = index) :
    (reader.without index).length < reader.cache.length := by
  refine length_filter_lt_length_iff_exists.mpr ⟨entry, member, ?_⟩
  simp [isOf]

theorem mem_evict
    {cacheChunks : Nat}
    {cache : List (Nat × Nat)}
    (member : entry ∈ evict cacheChunks cache) :
    entry ∈ cache :=
  mem_of_mem_drop member

theorem length_evict (cacheChunks : Nat) (cache : List (Nat × Nat)) :
    (evict cacheChunks cache).length ≤ cacheChunks := by
  rw [evict, length_drop]
  omega

theorem indexOf_append
    {fetch : Nat}
    {others : List Fetch}
    {after : Reader}
    (more : after.fetches = reader.fetches ++ others)
    (made : fetch < reader.fetches.length) :
    after.indexOf fetch = reader.indexOf fetch ∧
      after.statusOf fetch = reader.statusOf fetch := by
  simp only [Reader.indexOf, Reader.statusOf, more,
    getElem?_append_left made, and_self]

/-- What asking for a chunk leaves of a reader. -/
structure AskedFor
    (source : Source)
    (reader : Reader)
    (index : Nat)
    (asked : Reader × Nat) :
    Prop where
  stocked : Stocked source asked.1
  keeps : KeepsFetches reader asked.1
  more : reader.fetches.length ≤ asked.1.fetches.length
  isOf : asked.1.indexOf asked.2 = some index
  reads : asked.1.reads = reader.reads

/-- A chunk is answered from the cache or asked for once. -/
theorem askedFor_chunk
    (stocked : Stocked source reader)
    (below : index < chunksOver source.length) :
    AskedFor source reader index (chunk source.cacheChunks reader index) := by
  unfold chunk
  split
  · next entry fetch found =>
      obtain ⟨member, isOf⟩ := find_cached found
      have kept := stocked.cached _ member
      have fewer := length_without_lt member isOf
      obtain rfl : entry = index := isOf
      refine ⟨⟨stocked.indexed, stocked.given, stocked.opened, ?_, ?_⟩,
        fun _ _ => id, le_rfl, kept.1, rfl⟩
      · intro other memberToo
        rcases mem_append.mp memberToo with inside | last
        · exact stocked.cached other (mem_of_mem_filter inside)
        · rw [mem_singleton.mp last]
          exact kept
      · have few := stocked.few
        rw [length_append, length_singleton]
        omega
  · next absent =>
      have last : (reader.fetches ++ [⟨index, false, .opening⟩])[
          reader.fetches.length]? = some ⟨index, false, .opening⟩ :=
        getElem?_concat_length ..
      refine ⟨⟨?_, ?_, ?_, ?_, length_evict ..⟩, ?_, by simp, ?_, rfl⟩
      · intro fetch member
        rcases mem_append.mp member with inside | new
        · exact stocked.indexed fetch inside
        · rw [mem_singleton.mp new]
          exact below
      · intro fetch member bytes isGiven
        rcases mem_append.mp member with inside | new
        · exact stocked.given fetch inside bytes isGiven
        · rw [mem_singleton.mp new] at isGiven
          exact FetchStatus.noConfusion isGiven
      · intro fetch member isAsked
        rcases mem_append.mp member with inside | new
        · show reader.opened.begin = .opened
          rw [stocked.opened fetch inside isAsked]
          rfl
        · rw [mem_singleton.mp new] at isAsked
          exact absurd isAsked Bool.false_ne_true
      · intro entry member
        rcases mem_append.mp (mem_evict member) with inside | new
        · have kept := stocked.cached entry inside
          have same := @indexOf_append reader entry.2 _
            { reader with fetches :=
                reader.fetches ++ [⟨index, false, .opening⟩] } rfl
            (Reader.lt_of_indexOf kept.1)
          exact ⟨same.1.trans kept.1, fun handled =>
            kept.2 (same.2.symm.trans handled)⟩
        · rw [mem_singleton.mp new]
          simp [Reader.indexOf, Reader.statusOf]
      · intro fetch other isOf
        exact (@indexOf_append reader fetch _
          { reader with fetches :=
              reader.fetches ++ [⟨index, false, .opening⟩] } rfl
          (Reader.lt_of_indexOf isOf)).1.trans isOf
      · show (((reader.fetches ++ [⟨index, false, .opening⟩])[
          reader.fetches.length]?).map Fetch.index) = some index
        rw [last]
        rfl

/-- What asking for chunks one after another leaves of a reader. -/
structure AskedForAll
    (source : Source)
    (reader : Reader)
    (indices : List Nat)
    (asked : Reader × List Nat) :
    Prop where
  stocked : Stocked source asked.1
  keeps : KeepsFetches reader asked.1
  isOf : asked.2.map asked.1.indexOf = indices.map some
  reads : asked.1.reads = reader.reads

/-- All chunks of a read are answered or asked for. -/
theorem askedForAll_chunks
    {indices : List Nat}
    (stocked : Stocked source reader)
    (below : ∀ index ∈ indices, index < chunksOver source.length) :
    AskedForAll source reader indices
      (chunks source.cacheChunks reader indices) := by
  induction indices generalizing reader with
  | nil =>
    exact ⟨stocked, fun _ _ => id, rfl, rfl⟩
  | cons index rest inductionHypothesis =>
    have first := askedFor_chunk stocked (below index mem_cons_self)
    have others := inductionHypothesis first.stocked
      fun other member => below other (mem_cons_of_mem index member)
    refine ⟨others.stocked, fun fetch other isOf =>
      others.keeps fetch other (first.keeps fetch other isOf), ?_,
      others.reads.trans first.reads⟩
    rw [chunks, map_cons, map_cons, others.isOf]
    exact congrArg (· :: rest.map some)
      (others.keeps _ _ first.isOf)

/-- A cleared chunk comes from a later fetch. -/
theorem cleared_chunk
    {index other count : Nat}
    (cleared : Cleared index count reader) :
    Cleared index count (chunk source.cacheChunks reader other).1 ∧
      (other = index →
        count ≤ (chunk source.cacheChunks reader other).2) := by
  unfold chunk
  split
  · next entry fetch found =>
      obtain ⟨member, isOf⟩ := find_cached found
      refine ⟨⟨cleared.made, ?_⟩, fun same =>
        cleared.cached (entry, fetch) member (isOf.trans same)⟩
      intro held memberToo same
      rcases mem_append.mp memberToo with inside | last
      · exact cleared.cached held (mem_of_mem_filter inside) same
      · rw [mem_singleton.mp last] at same ⊢
        exact cleared.cached (entry, fetch) member (isOf.trans same)
  · next absent =>
      refine ⟨⟨?_, ?_⟩, fun _ => cleared.made⟩
      · rw [length_append]
        exact cleared.made.trans (Nat.le_add_right ..)
      · intro held memberToo same
        rcases mem_append.mp (mem_evict memberToo) with inside | last
        · exact cleared.cached held inside same
        · rw [mem_singleton.mp last]
          exact cleared.made

/-- Among several chunks a cleared one comes from a later fetch. -/
theorem cleared_chunks
    {index count : Nat}
    {indices : List Nat}
    (cleared : Cleared index count reader) :
    Cleared index count (chunks source.cacheChunks reader indices).1 ∧
      ∀ place : Nat, indices[place]? = some index → ∃ piece,
        (chunks source.cacheChunks reader indices).2[place]? = some piece ∧
          count ≤ piece := by
  induction indices generalizing reader with
  | nil =>
    exact ⟨cleared, fun place found => by simp at found⟩
  | cons first rest inductionHypothesis =>
    obtain ⟨kept, anew⟩ := @cleared_chunk source reader index first count
      cleared
    obtain ⟨keptAll, others⟩ := inductionHypothesis kept
    refine ⟨keptAll, fun place found => ?_⟩
    cases place with
    | zero =>
      rw [getElem?_cons_zero, Option.some.injEq] at found
      exact ⟨_, rfl, anew found⟩
    | succ place =>
      exact others place found

end Asking

section Moves

variable {source : Source} {reader : Reader}

variable {after : Reader} {read : Read} {change : Fetch → Fetch} {place : Nat}

theorem Answers.keep
    (answers : Answers source reader read)
    (keeps : KeepsFetches reader after) :
    Answers source after read where
  waits := by
    intro pending
    obtain ⟨span, spanned, pieces⟩ := answers.waits pending
    refine ⟨span, spanned, ?_⟩
    rw [← pieces]
    refine map_congr_left fun piece member => ?_
    have isOf : reader.indexOf piece ∈ span.indices.map some := by
      rw [← pieces]
      exact mem_map_of_mem member
    obtain ⟨index, _, same⟩ := mem_map.mp isOf
    rw [← same]
    exact keeps piece index same.symm
  resolved := answers.resolved

theorem Stocked.bytesOf
    {piece index : Nat}
    {bytes : Bytes}
    (stocked : Stocked source reader)
    (isOf : reader.indexOf piece = some index)
    (found : reader.bytesOf piece = some bytes) :
    bytes = fileChunk source.file index := by
  unfold Reader.bytesOf Reader.statusOf at found
  unfold Reader.indexOf at isOf
  cases held : reader.fetches[piece]? with
  | none =>
    simp [held] at isOf
  | some fetch =>
    have isFetch : fetch.index = index := by
      simpa [held] using isOf
    cases status : fetch.status with
    | given others =>
      simp only [held, Option.map_some, status, Option.some.injEq] at found
      subst found isFetch
      exact stocked.given fetch (mem_of_getElem? held) others status
    | _ =>
      simp [held, status] at found

/-- The pieces of a read are the file's chunks in order. -/
theorem Stocked.pieces
    {pieces indices : List Nat}
    {found : List Bytes}
    (stocked : Stocked source reader)
    (areOf : pieces.map reader.indexOf = indices.map some)
    (given : pieces.mapM reader.bytesOf = some found) :
    found = indices.map (fileChunk source.file) := by
  induction pieces generalizing indices found with
  | nil =>
    cases indices with
    | nil =>
      simpa using given.symm
    | cons index rest =>
      simp at areOf
  | cons piece others inductionHypothesis =>
    cases indices with
    | nil =>
      simp at areOf
    | cons index rest =>
      rw [map_cons, map_cons, List.cons.injEq] at areOf
      rw [mapM_cons] at given
      cases first : reader.bytesOf piece with
      | none =>
        simp [first] at given
      | some bytes =>
        cases further : others.mapM reader.bytesOf with
        | none =>
          simp [first, further] at given
        | some remaining =>
          simp only [first, further, Option.bind_eq_bind,
            Option.bind_some, Option.pure_def, Option.some.injEq]
            at given
          rw [← given, inductionHypothesis areOf.2 further,
            stocked.bytesOf areOf.1 first, map_cons]

theorem Answers.answered
    (stocked : Stocked source reader)
    (answers : Answers source reader read) :
    Answers source reader (answerRead source reader read) := by
  unfold answerRead
  split
  · next pending =>
      obtain ⟨span, spanned, pieces⟩ := answers.waits pending
      refine ⟨fun _ => ⟨span, spanned, pieces⟩, fun bytes resolved => ?_⟩
      dsimp only at resolved
      unfold answerOf at resolved
      split at resolved
      · next found given spannedToo all =>
          obtain rfl : span = found :=
            Option.some.inj (spanned.symm.trans spannedToo)
          obtain ⟨ofFile, isSlice⟩ := slice_spanOf spanned
          rw [← Answer.resolved.inj resolved, stocked.pieces pieces all,
            ofFile.assemble, isSlice]
      · split at resolved <;> exact Answer.noConfusion resolved
  · exact answers

theorem mem_settle
    {fetch : Fetch}
    (member : fetch ∈ (reader.settle place change).fetches) :
    ∃ before ∈ reader.fetches, fetch = before ∨ fetch = change before := by
  obtain ⟨other, found⟩ := mem_iff_getElem?.mp member
  rw [Reader.settle, getElem?_modify] at found
  cases held : reader.fetches[other]? with
  | none =>
    simp [held] at found
  | some before =>
    refine ⟨before, mem_of_getElem? held, ?_⟩
    by_cases same : place = other
    · exact .inr (by simpa [held, same] using found.symm)
    · exact .inl (by simpa [held, same] using found.symm)

theorem statusOf_settle_ne
    {place other : Nat}
    (apart : place ≠ other) :
    (reader.settle place change).statusOf other = reader.statusOf other := by
  rw [Reader.statusOf, Reader.statusOf, Reader.settle, getElem?_modify]
  cases reader.fetches[other]? <;> simp [apart]

/-- What a change of how far a fetch has got may be. -/
structure Settles (source : Source) (reader : Reader) (change : Fetch → Fetch) :
    Prop where
  index : ∀ fetch, (change fetch).index = fetch.index
  given : ∀ fetch ∈ reader.fetches, ∀ bytes,
    (change fetch).status = .given bytes →
      bytes = fileChunk source.file fetch.index
  opened : ∀ fetch ∈ reader.fetches, (change fetch).asked = true →
    reader.opened = .opened

/-- Settling a fetch keeps the reader stocked with a smaller cache. -/
theorem Stocked.settle
    (stocked : Stocked source reader)
    (settles : Settles source reader change)
    {cache : List (Nat × Nat)}
    (kept : ∀ entry ∈ cache, entry ∈ reader.cache)
    (few : cache.length ≤ source.cacheChunks)
    (unhandled : ∀ entry ∈ cache,
      (reader.settle place change).statusOf entry.2 ≠ some .handled) :
    Stocked source { reader.settle place change with cache := cache } where
  indexed := by
    intro fetch member
    obtain ⟨before, inside, rfl | rfl⟩ := mem_settle member
    · exact stocked.indexed fetch inside
    · rw [settles.index]
      exact stocked.indexed before inside
  given := by
    intro fetch member bytes isGiven
    obtain ⟨before, inside, rfl | rfl⟩ := mem_settle member
    · exact stocked.given fetch inside bytes isGiven
    · rw [settles.index]
      exact settles.given before inside bytes isGiven
  opened := by
    intro fetch member isAsked
    obtain ⟨before, inside, rfl | rfl⟩ := mem_settle member
    · exact stocked.opened fetch inside isAsked
    · exact settles.opened before inside isAsked
  cached := by
    intro entry member
    refine ⟨?_, unhandled entry member⟩
    exact (indexOf_settle settles.index).trans
      (stocked.cached entry (kept entry member)).1
  few := few

theorem Stocked.settle_unhandled
    (stocked : Stocked source reader)
    (settles : Settles source reader change)
    (handled : ∀ fetch, (change fetch).status = .handled →
      fetch.status = .handled) :
    Stocked source (reader.settle place change) := by
  refine stocked.settle settles (fun _ => id) stocked.few ?_
  intro entry member
  have unhandled := (stocked.cached entry member).2
  rw [Reader.statusOf, Reader.settle, getElem?_modify]
  rw [Reader.statusOf] at unhandled
  cases held : reader.fetches[entry.2]? with
  | none =>
    simp
  | some fetch =>
    rw [held, Option.map_some, ne_eq, Option.some.injEq] at unhandled
    by_cases same : place = entry.2
    · simpa [same] using fun isHandled =>
        unhandled (handled fetch isHandled)
    · simpa [same] using unhandled

theorem settles_startFetch (stocked : Stocked source reader) :
    Settles source reader (startFetch reader.opened) where
  index := index_startFetch reader.opened
  given := by
    intro fetch member bytes isGiven
    unfold startFetch at isGiven
    split at isGiven
    · exact FetchStatus.noConfusion isGiven
    · exact FetchStatus.noConfusion isGiven
    · exact stocked.given fetch member bytes isGiven
  opened := by
    intro fetch member isAsked
    unfold startFetch at isAsked
    split at isAsked
    · next isOpened => exact isOpened
    · exact stocked.opened fetch member isAsked
    · exact stocked.opened fetch member isAsked

theorem settles_settleFetch (stocked : Stocked source reader) (ok : Bool) :
    Settles source reader (settleFetch source ok) where
  index := index_settleFetch ok
  given := by
    intro fetch member bytes isGiven
    unfold settleFetch at isGiven
    split at isGiven
    · cases ok with
      | true =>
        rw [← FetchStatus.given.inj isGiven,
          Source.fetchChunk_eq (stocked.indexed fetch member)]
      | false =>
        exact FetchStatus.noConfusion isGiven
    · exact stocked.given fetch member bytes isGiven
  opened := by
    intro fetch member isAsked
    unfold settleFetch at isAsked
    split at isAsked <;> exact stocked.opened fetch member isAsked

theorem settles_handled (stocked : Stocked source reader) :
    Settles source reader (fun fetch => { fetch with status := .handled }) where
  index _ := rfl
  given _ _ _ isGiven := FetchStatus.noConfusion isGiven
  opened := stocked.opened

theorem SoundReader.keep
    (sound : SoundReader source reader)
    (stocked : Stocked source after)
    (keeps : KeepsFetches reader after)
    (reads : after.reads = reader.reads) :
    SoundReader source after where
  stocked := stocked
  answers := by
    rw [reads]
    exact fun read member => (sound.answers read member).keep keeps

theorem SoundReader.begin
    (sound : SoundReader source after)
    (answers : Answers source after read) :
    SoundReader source { after with reads := after.reads ++ [read] } where
  stocked := ⟨sound.stocked.indexed, sound.stocked.given,
    sound.stocked.opened, sound.stocked.cached, sound.stocked.few⟩
  answers := by
    intro other member
    rcases mem_append.mp member with inside | last
    · exact (sound.answers other inside).keep fun _ _ => id
    · rw [mem_singleton.mp last]
      exact answers.keep fun _ _ => id

/-- Starting a read keeps the reader sound. -/
theorem sound_beginRead
    (sound : SoundReader source reader)
    (offset length : Int) :
    SoundReader source (beginRead source reader offset length) := by
  unfold beginRead
  split
  · exact sound.begin ⟨fun pending => Answer.noConfusion pending,
      fun _ resolved => Answer.noConfusion resolved⟩
  · split
    · next nothing =>
        refine sound.begin ⟨fun pending => Answer.noConfusion pending,
          fun bytes resolved => ?_⟩
        rw [← Answer.resolved.inj resolved]
        exact (bytesFrom_of_none nothing).symm
    · next span spanned =>
        have ofFile := (slice_spanOf spanned).1
        have asked := askedForAll_chunks sound.stocked fun index member =>
          ofFile.lt_chunksOver source.covers member
        exact (sound.keep asked.stocked asked.keeps asked.reads).begin
          ⟨fun _ => ⟨span, spanned, asked.isOf⟩,
            fun _ resolved => Answer.noConfusion resolved⟩

/-- Every move keeps the reader sound. -/
theorem sound_step
    (move : Move)
    (sound : SoundReader source reader) :
    SoundReader source (step source reader move) := by
  have stocked := sound.stocked
  cases move with
  | read offset length =>
    exact sound_beginRead sound offset length
  | drain =>
    refine sound.keep ⟨stocked.indexed, stocked.given, ?_, stocked.cached,
      stocked.few⟩ (fun _ _ => id) rfl
    intro fetch member isAsked
    show reader.opened.begin = .opened
    rw [stocked.opened fetch member isAsked]
    rfl
  | openSettled ok =>
    rw [step]
    split
    · next waiting =>
        refine sound.keep ⟨stocked.indexed, stocked.given, ?_,
          stocked.cached, stocked.few⟩ (fun _ _ => id) rfl
        intro fetch member isAsked
        rw [stocked.opened fetch member isAsked] at waiting
        exact Opening.noConfusion waiting
    · exact sound
  | started place =>
    refine sound.keep (stocked.settle_unhandled
      (settles_startFetch stocked) ?_)
      (fun _ _ => (indexOf_settle (index_startFetch _)).trans) rfl
    intro fetch handled
    unfold startFetch at handled
    split at handled
    · exact FetchStatus.noConfusion handled
    · exact FetchStatus.noConfusion handled
    · exact handled
  | fetchSettled place ok =>
    refine sound.keep (stocked.settle_unhandled
      (settles_settleFetch stocked ok) ?_)
      (fun _ _ => (indexOf_settle (index_settleFetch _)).trans) rfl
    intro fetch handled
    unfold settleFetch at handled
    split at handled
    · cases ok <;> exact FetchStatus.noConfusion handled
    · exact handled
  | failureHandled place =>
    rw [step]
    split
    · next index _ isOf =>
        refine sound.keep (stocked.settle (settles_handled stocked)
          (fun entry => mem_of_mem_filter)
          ((length_filter_le ..).trans stocked.few) ?_)
          (fun fetch _ => (@indexOf_settle reader place fetch
            (fun failed => { failed with status := .handled })
            fun _ => rfl).trans) rfl
        intro entry member
        obtain ⟨inside, other⟩ := mem_filter.mp member
        obtain ⟨entryOf, unhandled⟩ := stocked.cached entry inside
        have apart : place ≠ entry.2 := by
          intro same
          rw [same, entryOf] at isOf
          exact of_decide_eq_true other (Option.some.inj isOf)
        rw [statusOf_settle_ne apart]
        exact unhandled
    · exact sound
  | answered place =>
    refine ⟨⟨stocked.indexed, stocked.given, stocked.opened, stocked.cached,
      stocked.few⟩, ?_⟩
    intro read member
    obtain ⟨other, found⟩ := mem_iff_getElem?.mp member
    have found : (reader.reads.modify place
        (answerRead source reader))[other]? = some read := found
    rw [getElem?_modify] at found
    cases held : reader.reads[other]? with
    | none =>
      simp [held] at found
    | some before =>
      have answers := sound.answers before (mem_of_getElem? held)
      by_cases same : place = other
      · obtain rfl : answerRead source reader before = read := by
          simpa [held, same] using found
        exact (answers.answered stocked).keep fun _ _ => id
      · obtain rfl : before = read := by
          simpa [held, same] using found
        exact answers.keep fun _ _ => id
  | close =>
    exact sound.keep ⟨stocked.indexed, stocked.given, stocked.opened,
      fun _ member => absurd member not_mem_nil, Nat.zero_le _⟩
      (fun _ _ => id) rfl

theorem cleared_of_handled
    {fetch index : Nat}
    (failed : reader.statusOf fetch = some .failed)
    (isOf : reader.indexOf fetch = some index) :
    Cleared index reader.fetches.length
      (step source reader (.failureHandled fetch)) := by
  rw [step, failed, isOf]
  constructor
  · simp [Reader.settle]
  · intro entry member same
    obtain ⟨_, other⟩ := mem_filter.mp member
    exact absurd same (of_decide_eq_true other)

/-- After every move a cleared chunk is cached by later fetches alone. -/
theorem cleared_step
    {index count : Nat}
    (move : Move)
    (cleared : Cleared index count reader) :
    Cleared index count (step source reader move) := by
  have settled (place : Nat) (change : Fetch → Fetch) :
      Cleared index count (reader.settle place change) :=
    ⟨by simpa [Reader.settle] using cleared.made, cleared.cached⟩
  cases move with
  | read offset length =>
    rw [step, beginRead]
    split
    · exact ⟨cleared.made, cleared.cached⟩
    · split
      · exact ⟨cleared.made, cleared.cached⟩
      · next span _ =>
          have asked := (@cleared_chunks source reader index count
            span.indices cleared).1
          exact ⟨asked.made, asked.cached⟩
  | drain =>
    exact ⟨cleared.made, cleared.cached⟩
  | openSettled ok =>
    rw [step]
    split
    · exact ⟨cleared.made, cleared.cached⟩
    · exact cleared
  | started place =>
    exact settled place _
  | fetchSettled place ok =>
    exact settled place _
  | failureHandled place =>
    rw [step]
    split
    · exact ⟨(settled place _).made, fun entry member =>
        cleared.cached entry (mem_of_mem_filter member)⟩
    · exact cleared
  | answered place =>
    exact ⟨cleared.made, cleared.cached⟩
  | close =>
    exact ⟨cleared.made, fun _ member =>
      absurd member not_mem_nil⟩

end Moves

/-- Every chunk a read begun now asks for is fetched after so many others. -/
def AsksAnew
    (source : Source)
    (reader : Reader)
    (index count : Nat) :
    Prop :=
  ∀ offset length read,
    (beginRead source reader offset length).reads.getLast? = some read →
    ∀ piece ∈ read.pieces,
      (beginRead source reader offset length).indexOf piece = some index →
        count ≤ piece

/-- A chunk that failed is fetched anew when next read. -/
theorem asksAnew_of_cleared
    {source : Source}
    {reader : Reader}
    {index count : Nat}
    (sound : SoundReader source reader)
    (cleared : Cleared index count reader) :
    AsksAnew source reader index count := by
  intro offset length read begun piece member isOf
  unfold beginRead at begun isOf
  split at begun
  · rw [getLast?_concat, Option.some.injEq] at begun
    subst begun
    exact absurd member not_mem_nil
  · next open_ =>
      rw [if_neg open_] at isOf
      cases spanned : spanOf source.file.length offset length with
      | none =>
        rw [spanned] at begun
        dsimp only at begun
        rw [getLast?_concat, Option.some.injEq] at begun
        subst begun
        exact absurd member not_mem_nil
      | some span =>
        rw [spanned] at begun isOf
        dsimp only at begun isOf
        rw [getLast?_concat, Option.some.injEq] at begun
        subst begun
        have ofFile := (slice_spanOf spanned).1
        have asked := askedForAll_chunks sound.stocked fun index member =>
          ofFile.lt_chunksOver source.covers member
        obtain ⟨place, found⟩ := mem_iff_getElem?.mp member
        have placed : span.indices[place]? = some index := by
          have both := congrArg (·[place]?) asked.isOf
          dsimp only at both found
          rw [getElem?_map, getElem?_map, found] at both
          have isOfToo : (chunks source.cacheChunks reader
              span.indices).1.indexOf piece = some index := isOf
          rw [Option.map_some, isOfToo] at both
          cases listed : span.indices[place]? with
          | none =>
            simp [listed] at both
          | some other =>
            simpa [listed] using both.symm
        obtain ⟨other, foundToo, later⟩ :=
          (@cleared_chunks source reader index count span.indices
            cleared).2 place placed
        obtain rfl : piece = other :=
          Option.some.inj (found.symm.trans foundToo)
        exact later

theorem sound_fresh (source : Source) : SoundReader source Reader.fresh where
  stocked :=
    { indexed := fun _ member => absurd member not_mem_nil
      given := fun _ member => absurd member not_mem_nil
      opened := fun _ member => absurd member not_mem_nil
      cached := fun _ member => absurd member not_mem_nil
      few := Nat.zero_le _ }
  answers _ member := absurd member not_mem_nil

theorem sound_run (source : Source) (moves : List Move) :
    SoundReader source (readerAfter source moves) :=
  Runs.keeps_of_step (SoundReader source) (fun _ move => sound_step move) moves
    (sound_fresh source)

/-- What holds of a reader after a run of moves. -/
structure ReadsFile (source : Source) (moves : List Move) : Prop where
  /-- A read that resolves is the file from its offset on. -/
  resolved : ∀ read ∈ (readerAfter source moves).reads, ∀ bytes,
    read.answer = .resolved bytes →
      bytes = bytesFrom source.file read.offset read.length
  /-- No more chunks are cached than may be, within a read's asking too. -/
  cached : (readerAfter source moves).cache.length ≤ source.cacheChunks
  asking : ∀ offset length span,
    spanOf source.file.length offset length = some span → ∀ count,
      (chunks source.cacheChunks (readerAfter source moves)
        (span.indices.take count)).1.cache.length ≤ source.cacheChunks
  /-- A chunk whose failed fetch was handled is fetched again. -/
  again : ∀ earlier later fetch index,
    moves = earlier ++ .failureHandled fetch :: later →
    (readerAfter source earlier).statusOf fetch = some .failed →
    (readerAfter source earlier).indexOf fetch = some index →
    AsksAnew source (readerAfter source moves) index
      (readerAfter source earlier).fetches.length
  /-- What was asked of the store once can be asked of it again. -/
  opened : ∀ fetch ∈ (readerAfter source moves).fetches,
    fetch.asked = true → (readerAfter source moves).opened = .opened

/--
Whatever is read of a file, whenever fetches settle, fail and are handled, and
whatever is evicted meanwhile, a read that resolves is the file from its offset
on, a failed chunk is fetched again, and the cache keeps its bound.
-/
theorem reads_file (source : Source) (moves : List Move) :
    ReadsFile source moves := by
  have sound := sound_run source moves
  refine ⟨fun read member => (sound.answers read member).resolved,
    sound.stocked.few, ?_, ?_, sound.stocked.opened⟩
  · intro offset length span spanned count
    have ofFile := (slice_spanOf spanned).1
    exact (askedForAll_chunks sound.stocked fun index member =>
      ofFile.lt_chunksOver source.covers
        (mem_of_mem_take member)).stocked.few
  · rintro earlier later fetch index rfl failed isOf
    refine asksAnew_of_cleared sound ?_
    have run : readerAfter source (earlier ++ .failureHandled fetch :: later) =
        Runs.run (step source)
          (step source (readerAfter source earlier) (.failureHandled fetch))
          later :=
      Runs.run_append (step source) Reader.fresh earlier _
    rw [run]
    exact Runs.keeps_of_step (Cleared index _)
      (fun _ move => cleared_step move) later (cleared_of_handled failed isOf)

end Content

end HushOS
