import HushOS.Content.Reads
import HushOS.Toolkit.Runs

namespace HushOS

open Toolkit List

namespace Content

/-!
# Random access to one file

A reader fetches the chunks its reads cover, shares fetches in flight, and
keeps the chunks used last in a bounded cache.  What is begun settles later, in
any order: the source opens or fails to, a fetch gives its chunk or fails, its
failure is handled, a read is answered.
-/

/-- A file to read at random, whose chunks cover it, and how many are kept. -/
structure Source where
  file : Bytes
  length : Nat
  covers : file.length ≤ length
  cacheChunks : Nat

/-- The file's part of a chunk, as a fetch that succeeds gives it. -/
def Source.fetchChunk (source : Source) (index : Nat) : Bytes :=
  fileBytesOf (plainChunk source.file source.length index)
    source.file.length index

/-- Whether the source's key was asked for, and came. -/
inductive Opening where
  | unopened
  | pending
  | opened
  | failed
  deriving DecidableEq, Repr

/-- Opening asked for, once. -/
def Opening.begin : Opening → Opening
  | .unopened => .pending
  | other => other

/-- How far a fetch has got. -/
inductive FetchStatus where
  /-- It waits for the source to open. -/
  | opening
  | fetching
  | given (bytes : Bytes)
  | failed
  /-- It failed, and what waits on the failure has run. -/
  | handled
  deriving DecidableEq, Repr

/-- A chunk's fetch. -/
structure Fetch where
  index : Nat
  /-- Whether the chunk itself was asked for. -/
  asked : Bool
  status : FetchStatus
  deriving DecidableEq, Repr

/-- What became of a read. -/
inductive Answer where
  | pending
  | resolved (bytes : Bytes)
  | rejected
  deriving DecidableEq, Repr

/-- A read, with the fetches of the chunks it covers. -/
structure Read where
  offset : Int
  length : Int
  pieces : List Nat
  answer : Answer
  deriving DecidableEq, Repr

/-- A reader: its fetches in order, and its cache, used last at the end. -/
structure Reader where
  opened : Opening
  fetches : List Fetch
  cache : List (Nat × Nat)
  closed : Bool
  reads : List Read
  deriving DecidableEq, Repr

namespace Reader

/-- A reader just made. -/
def fresh : Reader where
  opened := .unopened
  fetches := []
  cache := []
  closed := false
  reads := []

variable (reader : Reader)

/-- The chunk a fetch is of. -/
def indexOf (fetch : Nat) : Option Nat :=
  (reader.fetches[fetch]?).map Fetch.index

/-- How far a fetch has got. -/
def statusOf (fetch : Nat) : Option FetchStatus :=
  (reader.fetches[fetch]?).map Fetch.status

/-- The bytes a fetch gave. -/
def bytesOf (fetch : Nat) : Option Bytes :=
  match reader.statusOf fetch with
  | some (.given bytes) => some bytes
  | _ => none

/-- The cache with a chunk out of it. -/
def without (index : Nat) : List (Nat × Nat) :=
  reader.cache.filter fun entry => entry.1 ≠ index

/-- A fetch with its status changed. -/
def settle (fetch : Nat) (change : Fetch → Fetch) : Reader :=
  { reader with fetches := reader.fetches.modify fetch change }

end Reader

/-- The entries used last, as many as are kept. -/
def evict (cacheChunks : Nat) (cache : List (Nat × Nat)) : List (Nat × Nat) :=
  cache.drop (cache.length - cacheChunks)

/-- A chunk asked for: the cached fetch, used last from now on, or a new one. -/
def chunk (cacheChunks : Nat) (reader : Reader) (index : Nat) : Reader × Nat :=
  match reader.cache.find? fun entry => entry.1 = index with
  | some (_, fetch) =>
    ({ reader with cache := reader.without index ++ [(index, fetch)] }, fetch)
  | none =>
    let fetch := reader.fetches.length
    ({ reader with
        opened := reader.opened.begin
        fetches := reader.fetches ++ [⟨index, false, .opening⟩]
        cache := evict cacheChunks (reader.cache ++ [(index, fetch)]) },
      fetch)

/-- Chunks asked for, one after another. -/
def chunks (cacheChunks : Nat) : Reader → List Nat → Reader × List Nat
  | reader, [] => (reader, [])
  | reader, index :: rest =>
    let (next, piece) := chunk cacheChunks reader index
    let (last, pieces) := chunks cacheChunks next rest
    (last, piece :: pieces)

/-- A read begun: its chunks are asked for, unless it has none. -/
def beginRead (source : Source) (reader : Reader) (offset length : Int) :
    Reader :=
  if reader.closed then
    { reader with reads := reader.reads ++ [⟨offset, length, [], .rejected⟩] }
  else
    match spanOf source.file.length offset length with
    | none =>
      { reader with
        reads := reader.reads ++ [⟨offset, length, [], .resolved []⟩] }
    | some span =>
      let (next, pieces) := chunks source.cacheChunks reader span.indices
      { next with
        reads := next.reads ++ [⟨offset, length, pieces, .pending⟩] }

/-- What a read that waits is answered once its fetches allow it. -/
def answerOf (source : Source) (reader : Reader) (read : Read) : Answer :=
  match spanOf source.file.length read.offset read.length,
      read.pieces.mapM reader.bytesOf with
  | some span, some pieces => .resolved (assemble span pieces)
  | _, _ =>
    if read.pieces.any fun piece =>
        reader.statusOf piece = some .failed ||
          reader.statusOf piece = some .handled then
      .rejected
    else
      .pending

/-- What may happen to a reader next. -/
inductive Move where
  | read (offset length : Int)
  /-- The source is asked to open for the padding behind the file. -/
  | drain
  | openSettled (ok : Bool)
  /-- A fetch goes on once the source is open, or cannot be. -/
  | started (fetch : Nat)
  | fetchSettled (fetch : Nat) (ok : Bool)
  /-- What waits on a fetch's failure runs. -/
  | failureHandled (fetch : Nat)
  | answered (read : Nat)
  | close
  deriving DecidableEq, Repr

/-- A fetch that goes on once the source has opened or failed to. -/
def startFetch (source : Opening) (fetch : Fetch) : Fetch :=
  match fetch.status, source with
  | .opening, .opened => { fetch with asked := true, status := .fetching }
  | .opening, .failed => { fetch with status := .failed }
  | _, _ => fetch

/-- A fetch that gives its chunk, or fails. -/
def settleFetch (source : Source) (ok : Bool) (fetch : Fetch) : Fetch :=
  match fetch.status with
  | .fetching =>
    { fetch with
      status := if ok then .given (source.fetchChunk fetch.index) else .failed }
  | _ => fetch

/-- A read answered, if it waits. -/
def answerRead (source : Source) (reader : Reader) (read : Read) : Read :=
  match read.answer with
  | .pending => { read with answer := answerOf source reader read }
  | _ => read

/-- A reader after a move; a move that is not due changes nothing. -/
def step (source : Source) (reader : Reader) : Move → Reader
  | .read offset length => beginRead source reader offset length
  | .drain => { reader with opened := reader.opened.begin }
  | .openSettled ok =>
    if reader.opened = .pending then
      { reader with opened := if ok then .opened else .failed }
    else
      reader
  | .started fetch => reader.settle fetch (startFetch reader.opened)
  | .fetchSettled fetch ok => reader.settle fetch (settleFetch source ok)
  | .failureHandled fetch =>
    match reader.statusOf fetch, reader.indexOf fetch with
    | some .failed, some index =>
      { reader.settle fetch fun failed =>
          { failed with status := .handled } with
        cache := reader.without index }
    | _, _ => reader
  | .answered read =>
    { reader with reads := reader.reads.modify read (answerRead source reader) }
  | .close => { reader with closed := true, cache := [] }

/-- A reader after a run of moves, from when it was made. -/
def readerAfter (source : Source) (moves : List Move) : Reader :=
  Runs.run (step source) Reader.fresh moves

/-- The bytes of a file from an offset, as many as asked for or as there are. -/
def bytesFrom (file : Bytes) (offset length : Int) : Bytes :=
  if offset < 0 then [] else (file.drop offset.toNat).take length.toNat

theorem Source.fetchChunk_eq
    {source : Source}
    {index : Nat}
    (below : index < chunksOver source.length) :
    source.fetchChunk index = fileChunk source.file index :=
  fileBytesOf_plainChunk source.covers below

variable {file : Bytes}

/-- The span read is the file's bytes at the offset asked for. -/
theorem slice_spanOf
    {offset length : Int}
    {span : Span}
    (spanned : spanOf file.length offset length = some span) :
    span.Of file ∧
      Slices.slice file span.offset span.end_ =
        bytesFrom file offset length := by
  unfold spanOf at spanned
  dsimp only at spanned
  split at spanned
  · simp at spanned
  · next inside =>
      cases spanned
      refine ⟨⟨by dsimp only; omega, by dsimp only; omega⟩, ?_⟩
      rw [bytesFrom, if_neg (by omega)]
      refine ext_getElem? fun index => ?_
      rw [Slices.getElem?_slice, getElem?_take, getElem?_drop]
      dsimp only
      by_cases within : offset.toNat + index < file.length
      · by_cases wanted : index < length.toNat
        · rw [if_pos (by omega), if_pos wanted]
        · rw [if_neg (by omega), if_neg wanted]
      · rw [getElem?_eq_none (by omega), ite_self, ite_self]

theorem bytesFrom_of_none
    {offset length : Int}
    (nothing : spanOf file.length offset length = none) :
    bytesFrom file offset length = [] := by
  unfold spanOf at nothing
  dsimp only at nothing
  split at nothing
  · next outside =>
      rw [bytesFrom]
      split
      · rfl
      · rw [← length_eq_zero_iff, length_take, length_drop]
        omega
  · simp at nothing

/-- A span inside the file needs only the object's chunks. -/
theorem Span.Of.lt_chunksOver
    {span : Span}
    {length index : Nat}
    (ofFile : span.Of file)
    (covers : file.length ≤ length)
    (member : index ∈ span.indices) :
    index < chunksOver length := by
  obtain ⟨further, below, rfl⟩ := mem_map.mp member
  have positive : 0 < CHUNK_SIZE := by
    decide
  have some_ := ofFile.some_
  have ordered : span.first ≤ span.last :=
    Nat.div_le_div_right (by omega)
  have most : span.first + further ≤ span.last := by
    have bound := mem_range.mp below
    omega
  have ends : span.last * CHUNK_SIZE ≤ span.end_ - 1 := Nat.div_mul_le_self ..
  have last : span.last * CHUNK_SIZE < chunksOver length * CHUNK_SIZE :=
    calc span.last * CHUNK_SIZE
        ≤ span.end_ - 1 := ends
      _ < span.end_ := by omega
      _ ≤ length := ofFile.inside.trans covers
      _ ≤ chunksOver length * CHUNK_SIZE := le_chunksOver length
  exact Nat.lt_of_le_of_lt most (Nat.lt_of_mul_lt_mul_right last)

/-- A reader whose fetches are still there, each of its own chunk. -/
def KeepsFetches (before after : Reader) : Prop :=
  ∀ fetch index, before.indexOf fetch = some index →
    after.indexOf fetch = some index

section Moves

variable {source : Source} {reader : Reader}

theorem Reader.lt_of_indexOf
    {fetch index : Nat}
    (isOf : reader.indexOf fetch = some index) :
    fetch < reader.fetches.length := by
  by_contra past
  rw [Reader.indexOf, getElem?_eq_none (not_lt.mp past)] at isOf
  simp at isOf

theorem indexOf_settle
    {fetch other : Nat}
    {change : Fetch → Fetch}
    (kept : ∀ fetch, (change fetch).index = fetch.index) :
    (reader.settle fetch change).indexOf other = reader.indexOf other := by
  rw [Reader.indexOf, Reader.indexOf, Reader.settle, getElem?_modify]
  cases reader.fetches[other]? with
  | none =>
    rfl
  | some found =>
    by_cases same : fetch = other <;> simp [same, kept]

theorem index_startFetch (opening : Opening) (fetch : Fetch) :
    (startFetch opening fetch).index = fetch.index := by
  unfold startFetch
  split <;> rfl

theorem index_settleFetch (ok : Bool) (fetch : Fetch) :
    (settleFetch source ok fetch).index = fetch.index := by
  unfold settleFetch
  split <;> rfl

end Moves

end Content

end HushOS
