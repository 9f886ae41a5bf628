import HushOS.Content.Objects

namespace HushOS

open Toolkit List

namespace Content

/-!
# One read of a file

A read covers the chunks its bytes are in, takes of each chunk the part it asks
for, and copies the parts one behind the other.  Of a file's own chunks, that
is the file between the read's two ends.
-/

/-- The bytes a read is of, from the first up to the one after the last. -/
structure Span where
  offset : Nat
  end_ : Nat
  deriving DecidableEq, Repr

/-- The bytes a read is of, cut off at the file's end; none where it has none. -/
def spanOf (plaintextSize : Nat) (offset length : Int) : Option Span :=
  let end_ := min (plaintextSize : Int) (offset + length)
  if offset < 0 ∨ end_ ≤ offset then
    none
  else
    some ⟨offset.toNat, end_.toNat⟩

namespace Span

variable (span : Span)

/-- The first chunk with bytes of a read. -/
def first : Nat :=
  span.offset / CHUNK_SIZE

/-- The last chunk with bytes of a read. -/
def last : Nat :=
  (span.end_ - 1) / CHUNK_SIZE

/-- The chunks with bytes of a read, in order. -/
def indices : List Nat :=
  (List.range (span.last - span.first + 1)).map (span.first + ·)

end Span

/-- Bytes copied into an array at a place. -/
def put (out : Bytes) (place : Nat) (bytes : Bytes) : Bytes :=
  out.take place ++ bytes ++ out.drop (place + bytes.length)

/-- The array and the bytes written so far, with one more chunk's part. -/
def copyPart
    (span : Span)
    (index : Nat)
    (state : Bytes × Nat)
    (piece : Bytes) :
    Bytes × Nat :=
  let base := index * CHUNK_SIZE
  let from_ := max span.offset base - base
  let to_ := min span.end_ (base + CHUNK_SIZE) - base
  (put state.1 state.2 (Slices.slice piece from_ to_),
    state.2 + (to_ - from_))

/-- The parts of chunks from an index on, each copied behind the others. -/
def copyParts (span : Span) : Nat → Bytes × Nat → List Bytes → Bytes × Nat
  | _, state, [] => state
  | index, state, piece :: rest =>
    copyParts span (index + 1) (copyPart span index state piece) rest

/-- What a read answers, of the chunks it covers. -/
def assemble (span : Span) (pieces : List Bytes) : Bytes :=
  (copyParts span span.first
    (List.replicate (span.end_ - span.offset) 0, 0) pieces).1

theorem put_behind
    (written bytes : Bytes)
    (zeros : Nat) :
    put (written ++ List.replicate zeros 0) written.length bytes =
      written ++ bytes ++ List.replicate (zeros - bytes.length) 0 := by
  rw [put, take_left, drop_append, drop_eq_nil_of_le (by omega),
    nil_append, Nat.add_sub_cancel_left, drop_replicate]

/-- A file's chunk, as it is fetched. -/
def fileChunk (file : Bytes) (index : Nat) : Bytes :=
  Slices.slice file (index * CHUNK_SIZE) ((index + 1) * CHUNK_SIZE)

section Copying

variable {file : Bytes} {span : Span}

/-- Where a read has got to at the start of a chunk. -/
def Span.reached (span : Span) (index : Nat) : Nat :=
  max span.offset (min span.end_ (index * CHUNK_SIZE))

/-- What is written of a read at the start of a chunk. -/
def written (file : Bytes) (span : Span) (index : Nat) : Bytes × Nat :=
  (Slices.slice file span.offset (span.reached index) ++
      List.replicate (span.end_ - span.reached index) 0,
    span.reached index - span.offset)

/-- A chunk that is read into starts before the end and ends after the start. -/
structure Within (span : Span) (index : Nat) : Prop where
  starts : index * CHUNK_SIZE ≤ span.end_
  ends : span.offset ≤ (index + 1) * CHUNK_SIZE

theorem Span.reached_bounds
    (rises : span.offset ≤ span.end_)
    (index : Nat) :
    span.offset ≤ span.reached index ∧ span.reached index ≤ span.end_ :=
  ⟨le_max_left .., max_le rises (min_le_left ..)⟩

theorem Span.monotone_reached (span : Span) : Monotone span.reached :=
  fun _ _ rises => max_le_max le_rfl
    (min_le_min le_rfl (Nat.mul_le_mul_right CHUNK_SIZE rises))

section OneChunk

variable {index : Nat}

theorem Within.reached (within : Within span index) :
    span.reached index = max span.offset (index * CHUNK_SIZE) := by
  rw [Span.reached, min_eq_right within.starts]

theorem Within.reached_succ
    (within : Within span index)
    (rises : span.offset ≤ span.end_) :
    span.reached (index + 1) = min span.end_ ((index + 1) * CHUNK_SIZE) := by
  rw [Span.reached, max_eq_right (le_min rises within.ends)]

/-- A chunk holds the span's bytes between its two cuts. -/
theorem slice_fileChunk
    (within : Within span index)
    (rises : span.offset ≤ span.end_) :
    Slices.slice (fileChunk file index)
        (span.reached index - index * CHUNK_SIZE)
        (span.reached (index + 1) - index * CHUNK_SIZE) =
      Slices.slice file (span.reached index) (span.reached (index + 1)) := by
  have more : index * CHUNK_SIZE ≤ (index + 1) * CHUNK_SIZE :=
    Nat.mul_le_mul_right CHUNK_SIZE (Nat.le_succ index)
  have starts : index * CHUNK_SIZE ≤ span.reached index := by
    rw [within.reached]
    exact le_max_right ..
  have further : index * CHUNK_SIZE ≤ span.reached (index + 1) := by
    rw [within.reached_succ rises]
    exact le_min within.starts more
  have stops : span.reached (index + 1) ≤ (index + 1) * CHUNK_SIZE := by
    rw [within.reached_succ rises]
    exact min_le_right ..
  rw [fileChunk, Slices.slice_slice, Nat.add_sub_cancel' starts,
    Nat.add_sub_cancel' further, min_eq_right stops]

/-- Copying one chunk extends what was written by its part. -/
theorem copyPart_fileChunk
    (inside : span.end_ ≤ file.length)
    (rises : span.offset ≤ span.end_)
    (within : Within span index) :
    copyPart span index (written file span index) (fileChunk file index) =
      written file span (index + 1) := by
  obtain ⟨start, stop⟩ := Span.reached_bounds rises index
  obtain ⟨startNext, stopNext⟩ := Span.reached_bounds rises (index + 1)
  have further : span.reached index ≤ span.reached (index + 1) :=
    span.monotone_reached (Nat.le_succ index)
  have next : index * CHUNK_SIZE + CHUNK_SIZE = (index + 1) * CHUNK_SIZE :=
    (Nat.succ_mul index CHUNK_SIZE).symm
  have based : index * CHUNK_SIZE ≤ span.reached index := by
    rw [within.reached]
    exact le_max_right ..
  have headLength :
      (Slices.slice file span.offset (span.reached index)).length =
        span.reached index - span.offset := by
    rw [Slices.length_slice, min_eq_left (stop.trans inside)]
  have partLength :
      (Slices.slice file (span.reached index)
        (span.reached (index + 1))).length =
          span.reached (index + 1) - span.reached index := by
    rw [Slices.length_slice, min_eq_left (stopNext.trans inside)]
  rw [copyPart, written, next, ← within.reached,
    ← within.reached_succ rises, slice_fileChunk within rises]
  refine Prod.ext ?_ ?_
  · dsimp only
    rw [← headLength, put_behind, partLength,
      Slices.slice_append_slice start further]
    rw [written]
    dsimp only
    rw [show span.end_ - span.reached index -
      (span.reached (index + 1) - span.reached index) =
        span.end_ - span.reached (index + 1) by omega]
  · rw [written]
    dsimp only
    rw [tsub_tsub_tsub_cancel_right based]
    omega

end OneChunk

/-- Copying chunks in order extends what was written by all of them. -/
theorem copyParts_fileChunks
    (inside : span.end_ ≤ file.length)
    (rises : span.offset ≤ span.end_)
    (index count : Nat)
    (within : ∀ further < count, Within span (index + further)) :
    copyParts span index (written file span index)
        ((List.range count).map fun further =>
          fileChunk file (index + further)) =
      written file span (index + count) := by
  induction count generalizing index with
  | zero =>
    rfl
  | succ count inductionHypothesis =>
    have rest : (List.range (count + 1)).map
          (fun further => fileChunk file (index + further)) =
        fileChunk file index :: (List.range count).map
          fun further => fileChunk file (index + 1 + further) := by
      rw [range_succ_eq_map, map_cons, map_map]
      refine congrArg _ (map_congr_left fun further _ => ?_)
      rw [Function.comp_apply, Nat.succ_eq_add_one, Nat.add_comm further,
        Nat.add_assoc]
    have withinRest : ∀ further < count,
        Within span (index + 1 + further) := by
      intro further below
      have placed := within (further + 1) (Nat.succ_lt_succ below)
      rwa [Nat.add_comm further, ← Nat.add_assoc] at placed
    have withinFirst : Within span index := within 0 (Nat.succ_pos count)
    rw [rest, copyParts, copyPart_fileChunk inside rises withinFirst,
      inductionHypothesis (index + 1) withinRest, Nat.add_assoc,
      Nat.add_comm 1]

/-- A read is of bytes in the file, and of some. -/
structure Span.Of (span : Span) (file : Bytes) : Prop where
  some_ : span.offset < span.end_
  inside : span.end_ ≤ file.length

/-- Each chunk of a span lies within it. -/
theorem Span.Of.within
    (ofFile : span.Of file)
    {further : Nat}
    (below : further < span.last - span.first + 1) :
    Within span (span.first + further) := by
  have positive : 0 < CHUNK_SIZE := by
    decide
  have some_ := ofFile.some_
  have ordered : span.first ≤ span.last :=
    Nat.div_le_div_right (by omega)
  constructor
  · have most : (span.first + further) * CHUNK_SIZE ≤ span.end_ - 1 :=
      calc (span.first + further) * CHUNK_SIZE
          ≤ span.last * CHUNK_SIZE :=
            Nat.mul_le_mul_right CHUNK_SIZE (by omega)
        _ ≤ span.end_ - 1 := Nat.div_mul_le_self ..
    exact most.trans (Nat.sub_le ..)
  · calc span.offset
        ≤ (span.first + 1) * CHUNK_SIZE :=
          (Nat.lt_mul_of_div_lt (Nat.lt_succ_self _) positive).le
      _ ≤ (span.first + further + 1) * CHUNK_SIZE :=
          Nat.mul_le_mul_right CHUNK_SIZE (by omega)

/-- The chunks of a span assemble to the span's bytes. -/
theorem Span.Of.assemble
    (ofFile : span.Of file) :
    Content.assemble span (span.indices.map (fileChunk file)) =
      Slices.slice file span.offset span.end_ := by
  have positive : 0 < CHUNK_SIZE := by
    decide
  have some_ := ofFile.some_
  have rises : span.offset ≤ span.end_ := some_.le
  have ordered : span.first ≤ span.last :=
    Nat.div_le_div_right (by omega)
  have starts : span.reached span.first = span.offset := by
    have before : span.first * CHUNK_SIZE ≤ span.offset :=
      Nat.div_mul_le_self ..
    rw [Span.reached, min_eq_right (before.trans rises), max_eq_left before]
  have stops : span.reached (span.first + (span.last - span.first + 1)) =
      span.end_ := by
    have past : span.end_ - 1 < (span.last + 1) * CHUNK_SIZE :=
      Nat.lt_mul_of_div_lt (Nat.lt_succ_self _) positive
    rw [← Nat.add_assoc, Nat.add_sub_cancel' ordered, Span.reached,
      min_eq_left (by omega), max_eq_right rises]
  have start : written file span span.first =
      (List.replicate (span.end_ - span.offset) 0, 0) := by
    rw [written, starts, Slices.slice_eq_nil (min_le_left ..), Nat.sub_self,
      nil_append]
  have copied := copyParts_fileChunks ofFile.inside rises span.first
    (span.last - span.first + 1) fun further below => ofFile.within below
  rw [Content.assemble, ← start, Span.indices, map_map]
  calc (copyParts span span.first (written file span span.first)
          ((List.range (span.last - span.first + 1)).map
            fun further => fileChunk file (span.first + further))).1
      = (written file span
          (span.first + (span.last - span.first + 1))).1 := by
        rw [copied]
    _ = Slices.slice file span.offset span.end_ := by
        rw [written, stops, Nat.sub_self, replicate_zero,
          append_nil]

end Copying

end Content

end HushOS
