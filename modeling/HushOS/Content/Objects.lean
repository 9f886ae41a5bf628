import HushOS.Content.Framing

namespace HushOS

open Toolkit List

namespace Content

/-!
# Objects as they are stored

What the writer stores of a file, what a ranged reader fetches of it, and what
the server expects of its parts, all come to one division of the object.
-/

section Chunks

variable {length index : Nat}

/-- Where a chunk of a stream starts, the stream's end after the last one. -/
def plainCut (length index : Nat) : Nat :=
  min (index * CHUNK_SIZE) length

/-- Where a chunk starts in the object, and where what is after it does. -/
def sealedCut (length size index : Nat) : Nat :=
  if index < chunksOver length then
    index * (CHUNK_SIZE + CHUNK_TAG_BYTES)
  else
    size

theorem monotone_plainCut (length : Nat) : Monotone (plainCut length) :=
  fun _ _ rises => min_le_min (Nat.mul_le_mul_right CHUNK_SIZE rises) le_rfl

/-- A chunk is as long as the cuts around it are apart. -/
theorem chunkPlaintextLength_eq
    (exact_ : length ≤ maxSafe)
    (below : index < chunksOver length) :
    chunkPlaintextLength length index =
      .ok (plainCut length (index + 1) - plainCut length index) := by
  have next : (index + 1) * CHUNK_SIZE = index * CHUNK_SIZE + CHUNK_SIZE := by
    ring
  rw [chunkPlaintextLength, chunkCount, if_pos exact_, ok_bind,
    if_neg (not_le.mpr below)]
  by_cases before : index < chunksOver length - 1
  · have far := @chunksOver_lt length index (by omega)
    rw [if_pos before, plainCut, plainCut, min_eq_left far.le,
      min_eq_left (by omega)]
    exact congrArg Except.ok (by omega)
  · have isLast : index + 1 = chunksOver length := by omega
    have covers := le_chunksOver length
    rw [← isLast] at covers
    rw [if_neg before, plainCut, plainCut, min_eq_right covers, min_comm,
      tsub_min]

theorem plainCut_of_lt (below : index < chunksOver length) :
    plainCut length index = index * CHUNK_SIZE := by
  cases index with
  | zero =>
    simp [plainCut]
  | succ index =>
    exact min_eq_left (chunksOver_lt below).le

theorem plainCut_chunksOver (length : Nat) :
    plainCut length (chunksOver length) = length :=
  min_eq_right (le_chunksOver length)

end Chunks

section Files

variable {file : Bytes} {length index : Nat}

/-- A chunk as the writer reads it, the file's part of it first. -/
def plainChunk (file : Bytes) (length index : Nat) : Bytes :=
  let found :=
    Slices.slice file (plainCut length index) (plainCut length (index + 1))
  let bytes := plainCut length (index + 1) - plainCut length index
  found ++ List.replicate (bytes - found.length) 0

theorem readChunk_eq
    (exact_ : length ≤ maxSafe)
    (below : index < chunksOver length) :
    readChunk file length index = .ok (plainChunk file length index) := by
  have rises := monotone_plainCut length (Nat.le_succ index)
  have ends : plainCut length index +
      (plainCut length (index + 1) - plainCut length index) =
        plainCut length (index + 1) :=
    Nat.add_sub_cancel' rises
  rw [readChunk, chunkPlaintextLength_eq exact_ below, ok_bind,
    ← plainCut_of_lt below]
  simp only [ends]
  rfl

theorem length_plainChunk :
    (plainChunk file length index).length =
      plainCut length (index + 1) - plainCut length index := by
  have rises := monotone_plainCut length (Nat.le_succ index)
  rw [plainChunk, length_append, length_replicate,
    Slices.length_slice]
  omega

/-- A chunk's file bytes are the file's slice at its place. -/
theorem fileBytesOf_plainChunk
    (covers : file.length ≤ length)
    (below : index < chunksOver length) :
    fileBytesOf (plainChunk file length index) file.length index =
      Slices.slice file (index * CHUNK_SIZE) ((index + 1) * CHUNK_SIZE) := by
  have rises := monotone_plainCut length (Nat.le_succ index)
  have starts := plainCut_of_lt below
  have ends : plainCut length (index + 1) = (index + 1) * CHUNK_SIZE ∨
      file.length ≤ plainCut length (index + 1) := by
    rcases le_total ((index + 1) * CHUNK_SIZE) length with full | part
    · exact .inl (min_eq_left full)
    · exact .inr (covers.trans (min_eq_right part).ge)
  have same : Slices.slice file (plainCut length index)
      (plainCut length (index + 1)) =
        Slices.slice file (index * CHUNK_SIZE) ((index + 1) * CHUNK_SIZE) := by
    rw [starts]
    rcases ends with full | past
    · rw [full]
    · have further : plainCut length (index + 1) ≤ (index + 1) * CHUNK_SIZE :=
        min_le_left ..
      rw [Slices.slice_of_length_le past,
        Slices.slice_of_length_le (past.trans further)]
  have bytes := Slices.length_slice file (plainCut length index)
    (plainCut length (index + 1))
  rw [fileBytesOf, length_plainChunk, ← same, ← starts]
  have short : min (plainCut length (index + 1) - plainCut length index)
      (file.length - plainCut length index) =
        (Slices.slice file (plainCut length index)
          (plainCut length (index + 1))).length := by
    rw [bytes]
    exact Nat.sub_min_sub_right ..
  rw [short, plainChunk]
  exact take_left

/-- The chunks' file bytes in order make the file. -/
theorem flatMap_fileBytesOf (covers : file.length ≤ length) :
    (List.range (chunksOver length)).flatMap
        (fun index =>
          fileBytesOf (plainChunk file length index) file.length index) =
      file := by
  have rises : Monotone fun index => index * CHUNK_SIZE :=
    fun _ _ further => Nat.mul_le_mul_right CHUNK_SIZE further
  calc (List.range (chunksOver length)).flatMap
          (fun index =>
            fileBytesOf (plainChunk file length index) file.length index)
      = (List.range (chunksOver length)).flatMap
          (fun index => Slices.slice file (index * CHUNK_SIZE)
            ((index + 1) * CHUNK_SIZE)) :=
        flatMap_congr fun index member =>
          fileBytesOf_plainChunk covers (mem_range.mp member)
    _ = Slices.slice file (0 * CHUNK_SIZE)
          (chunksOver length * CHUNK_SIZE) :=
        Slices.flatMap_slice file rises _
    _ = file := by
        rw [Slices.slice_of_length_le (covers.trans (le_chunksOver length)),
          Nat.zero_mul, drop_zero]

end Files

/-- Ranges end to end, from one place of an object to another. -/
def Tiles : Nat → List Range → Nat → Prop
  | start, [], stop => start = stop
  | start, range :: rest, stop =>
    range.start = start ∧ range.start ≤ range.end_ ∧
      Tiles (range.end_ + 1) rest stop

/-- The range between two places of an object. -/
def between (start stop : Nat) : Range where
  start := start
  end_ := stop - 1

theorem tiles_append
    {start middle stop : Nat}
    {ranges : List Range}
    (tiled : Tiles start ranges middle)
    (rises : middle < stop) :
    Tiles start (ranges ++ [between middle stop]) stop := by
  induction ranges generalizing start with
  | nil =>
    obtain rfl : start = middle := tiled
    exact ⟨rfl, Nat.le_sub_one_of_lt rises, Nat.sub_add_cancel (by omega)⟩
  | cons first rest inductionHypothesis =>
    exact ⟨tiled.1, tiled.2.1, inductionHypothesis tiled.2.2⟩

theorem tiles_between
    {cut : Nat → Nat}
    {count : Nat}
    (rises : ∀ index < count, cut index < cut (index + 1)) :
    Tiles (cut 0)
      ((List.range count).map fun index => between (cut index) (cut (index + 1)))
      (cut count) := by
  induction count with
  | zero =>
    rfl
  | succ count inductionHypothesis =>
    rw [range_succ, map_append]
    exact tiles_append
      (inductionHypothesis fun index below =>
        rises index (Nat.lt_succ_of_lt below))
      (rises count (Nat.lt_succ_self count))

/-- What the sizes of an object are, once they are accepted. -/
structure Sized
    (suite plaintextSize thumbnailBytes length size : Nat) :
    Prop where
  covered : contentLength suite plaintextSize thumbnailBytes = .ok length
  covers : Covers suite plaintextSize thumbnailBytes length
  size : size = length + CHUNK_TAG_BYTES * chunksOver length +
    trailerBytes thumbnailBytes

section Ranges

variable {suite plaintextSize thumbnailBytes length size index : Nat}

theorem sized_of_ciphertextSize
    (sized : ciphertextSize suite plaintextSize thumbnailBytes = .ok size) :
    ∃ length, Sized suite plaintextSize thumbnailBytes length size := by
  simp only [ciphertextSize, bind_eq_ok] at sized
  obtain ⟨length, covered, count, counted, trailer, trailed, sized⟩ := sized
  have covers := covers_of_contentLength covered
  rw [chunkCount, if_pos covers.exact_] at counted
  rw [trailerLength, if_pos covers.thumbnail] at trailed
  cases counted
  cases trailed
  cases sized
  exact ⟨length, covered, covers, rfl⟩

theorem Sized.ciphertextSize
    (sized : Sized suite plaintextSize thumbnailBytes length size) :
    Content.ciphertextSize suite plaintextSize thumbnailBytes = .ok size := by
  rw [Content.ciphertextSize, sized.covered, ok_bind, chunkCount,
    if_pos sized.covers.exact_, ok_bind, trailerLength,
    if_pos sized.covers.thumbnail, ok_bind, sized.size]

/-- The last sealed chunk and the trailer end the object. -/
theorem Sized.last
    (sized : Sized suite plaintextSize thumbnailBytes length size) :
    size = (chunksOver length - 1) * (CHUNK_SIZE + CHUNK_TAG_BYTES) +
      ((length - plainCut length (chunksOver length - 1)) + CHUNK_TAG_BYTES +
        trailerBytes thumbnailBytes) := by
  have some_ := one_le_chunksOver length
  have starts := @plainCut_of_lt length (chunksOver length - 1) (by omega)
  have inside : (chunksOver length - 1) * CHUNK_SIZE ≤ length := by
    rw [← starts]
    exact min_le_right ..
  have whole : chunksOver length = chunksOver length - 1 + 1 := by
    omega
  rw [sized.size, starts]
  calc length + CHUNK_TAG_BYTES * chunksOver length +
          trailerBytes thumbnailBytes
      = ((length - (chunksOver length - 1) * CHUNK_SIZE) +
            (chunksOver length - 1) * CHUNK_SIZE) +
          CHUNK_TAG_BYTES * (chunksOver length - 1 + 1) +
          trailerBytes thumbnailBytes := by
        rw [Nat.sub_add_cancel inside, ← whole]
    _ = _ := by ring

theorem Sized.rises
    (sized : Sized suite plaintextSize thumbnailBytes length size)
    (below : index < chunksOver length) :
    sealedCut length size index < sealedCut length size (index + 1) := by
  have tag : 0 < CHUNK_TAG_BYTES := by
    decide
  rw [sealedCut, sealedCut, if_pos below]
  split
  · exact Nat.mul_lt_mul_of_pos_right (Nat.lt_succ_self index)
      (Nat.add_pos_right CHUNK_SIZE tag)
  · have isLast : index = chunksOver length - 1 := by omega
    rw [sized.last, ← isLast]
    omega

/-- A chunk's range runs between its sealed cuts. -/
theorem Sized.chunkRange
    (sized : Sized suite plaintextSize thumbnailBytes length size)
    (below : index < chunksOver length) :
    Content.chunkRange suite plaintextSize thumbnailBytes index =
      .ok (between (sealedCut length size index)
        (sealedCut length size (index + 1))) := by
  rw [Content.chunkRange, sized.covered, ok_bind, chunkCount,
    if_pos sized.covers.exact_, ok_bind, sealedCut, if_pos below]
  by_cases isLast : index = chunksOver length - 1
  · have past : ¬ index + 1 < chunksOver length := by omega
    rw [if_pos isLast, sized.ciphertextSize, ok_bind, sealedCut, if_neg past]
    rfl
  · have before : index + 1 < chunksOver length := by omega
    have starts := plainCut_of_lt below
    have ends := plainCut_of_lt before
    have bytes : plainCut length (index + 1) - plainCut length index =
        CHUNK_SIZE := by
      rw [starts, ends, Nat.succ_mul, Nat.add_sub_cancel_left]
    rw [if_neg isLast, chunkCiphertextLength,
      chunkPlaintextLength_eq sized.covers.exact_ below, ok_bind, ok_bind,
      bytes, sealedCut, if_pos before, between, Nat.succ_mul]

/-- An upload part is as long as its sealed cuts are apart. -/
theorem Sized.partLength
    (sized : Sized suite plaintextSize thumbnailBytes length size)
    (below : index < chunksOver length) :
    Content.partLength size (chunksOver length) (index + 1) =
      .ok (sealedCut length size (index + 1) -
        sealedCut length size index : Nat) := by
  rw [Content.partLength, if_neg (by omega), sealedCut, sealedCut,
    if_pos below]
  by_cases before : index + 1 < chunksOver length
  · rw [if_pos before, if_pos before, Nat.succ_mul, Nat.add_sub_cancel_left]
    rfl
  · have isLast : index = chunksOver length - 1 := by omega
    have inside : index * (CHUNK_SIZE + CHUNK_TAG_BYTES) ≤ size := by
      rw [sized.last, ← isLast]
      exact Nat.le_add_right ..
    have whole : (chunksOver length : Int) - 1 = index := by
      omega
    rw [if_neg before, if_neg before, whole, Nat.cast_sub inside]
    push_cast
    rfl

end Ranges

/-- A sized object passes the server's size check. -/
theorem Sized.validObjectSize
    {suite plaintextSize thumbnailBytes length size : Nat}
    (sized : Sized suite plaintextSize thumbnailBytes length size)
    (exact_ : size ≤ maxSafe) :
    Content.validObjectSize size (chunksOver length) = true := by
  have some_ := one_le_chunksOver length
  have last := @Sized.partLength _ _ _ _ _ (chunksOver length - 1) sized
    (by omega)
  have tagged : chunksOver length ≤ size := by
    have tags : chunksOver length ≤ CHUNK_TAG_BYTES * chunksOver length :=
      Nat.le_mul_of_pos_left _ (by decide)
    rw [sized.size]
    omega
  have few : ¬ (maxSafe < size ∨ maxSafe < chunksOver length ∨
      chunksOver length < 1) := by
    omega
  have whole : chunksOver length - 1 + 1 = chunksOver length := by
    omega
  have starts := @plainCut_of_lt length (chunksOver length - 1) (by omega)
  have left : sealedCut length size (chunksOver length) -
      sealedCut length size (chunksOver length - 1) =
        (length - (chunksOver length - 1) * CHUNK_SIZE) + CHUNK_TAG_BYTES +
          trailerBytes thumbnailBytes := by
    rw [sealedCut, sealedCut, if_neg (lt_irrefl _), if_pos (by omega),
      ← starts]
    conv_lhs => rw [sized.last]
    rw [Nat.add_sub_cancel_left]
  have full : length - (chunksOver length - 1) * CHUNK_SIZE ≤ CHUNK_SIZE := by
    have covers := le_chunksOver length
    rw [← whole, Nat.succ_mul] at covers
    exact Nat.sub_le_of_le_add (by rwa [Nat.add_comm] at covers)
  have more : chunksOver length ≠ 1 →
      0 < length - (chunksOver length - 1) * CHUNK_SIZE := by
    intro several
    have far := @chunksOver_lt length (chunksOver length - 2) (by omega)
    rw [show chunksOver length - 2 + 1 = chunksOver length - 1 by omega] at far
    exact Nat.sub_pos_of_lt far
  have trailer : trailerBytes thumbnailBytes ≤
      THUMBNAIL_MAX_BYTES + CHUNK_TAG_BYTES := by
    have small := sized.covers.thumbnail
    rw [trailerBytes]
    split <;> omega
  rw [whole, left] at last
  rw [Content.validObjectSize, if_neg few, last]
  generalize CHUNK_SIZE = chunk at *
  generalize THUMBNAIL_MAX_BYTES = most at *
  generalize CHUNK_TAG_BYTES = tag at *
  generalize length - (chunksOver length - 1) * chunk = plain at *
  simp only [Bool.and_eq_true, decide_eq_true_eq]
  constructor
  · by_cases single : chunksOver length = 1
    · rw [if_pos single]
      omega
    · have some_ := more single
      rw [if_neg single]
      omega
  · omega

end Content

end HushOS
