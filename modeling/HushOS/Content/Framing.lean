import HushOS.Canonical
import HushOS.Toolkit.Slices

namespace HushOS

open Toolkit

namespace Content

/-!
# The framing of a stored file

An object is a file's chunks, each with its tag, and then the thumbnail's
trailer when there is one.  Under suite 3 the chunks run on past the file into
zeros, so that what the server sees of the size is a Padmé bucket.  The writer,
the ranged reader and the server's checks each compute where chunks start and
end, from a suite, a file size and a thumbnail length.
-/

def CHUNK_SIZE : Nat := 8 * 1024 * 1024

def CHUNK_TAG_BYTES : Nat := 16

def THUMBNAIL_MAX_BYTES : Nat := 64 * 1024

def CONTENT_SUITE : Nat := 3

def UNPADDED_CONTENT_SUITE : Nat := 2

def LEGACY_CONTENT_SUITE : Nat := 1

def READABLE_CONTENT_SUITES : List Nat :=
  [LEGACY_CONTENT_SUITE, UNPADDED_CONTENT_SUITE, CONTENT_SUITE]

/-- A suite that is read, or refused. -/
def checkSuite (value : Nat) : Except CryptoError Nat :=
  if value ∈ READABLE_CONTENT_SUITES then
    .ok value
  else
    .error ⟨"This file was stored in a way this app does not support."⟩

/-- A number of bytes a client counts exactly, or refused. -/
def byteCount (value : Nat) (what : String) : Except CryptoError Nat :=
  if value ≤ maxSafe then .ok value else .error (invalid what)

/-- A number with its low bits cleared. -/
def clearLow (value bits : Nat) : Nat :=
  (value >>> bits) <<< bits

/-- How many low bits Padmé clears of a length above 256. -/
def paddedBits (length : Nat) : Nat :=
  Nat.log2 length - (Nat.log2 (Nat.log2 length) + 1)

/-- Padmé: a length rounded up so that only its top bits survive. -/
def paddedLength (length : Nat) : Except CryptoError Nat :=
  if maxSafe < length then
    .error (invalid "file size")
  else if length ≤ 256 then
    .ok 256
  else
    let mask := 2 ^ paddedBits length - 1
    let out := clearLow (length + mask) (paddedBits length)
    if maxSafe < out then .error (invalid "file size") else .ok out

/-- Chunks over a stream of some length, one where it is empty. -/
def chunksOver (length : Nat) : Nat :=
  max 1 ((length + CHUNK_SIZE - 1) / CHUNK_SIZE)

/-- Chunks over a stream of a length a client counts exactly, or refused. -/
def chunkCount (length : Nat) : Except CryptoError Nat :=
  if length ≤ maxSafe then
    .ok (chunksOver length)
  else
    .error (invalid "file size")

/-- The bytes of a thumbnail and its tag, none where there is no thumbnail. -/
def trailerBytes (thumbnailBytes : Nat) : Nat :=
  if 0 < thumbnailBytes then thumbnailBytes + CHUNK_TAG_BYTES else 0

/-- The trailer's length in the object, or refused. -/
def trailerLength (thumbnailBytes : Nat) : Except CryptoError Nat :=
  if thumbnailBytes ≤ THUMBNAIL_MAX_BYTES then
    .ok (trailerBytes thumbnailBytes)
  else
    .error (invalid "thumbnail size")

/-- What the chunks of an object cover. -/
def contentLength (suite plaintextSize thumbnailBytes : Nat) :
    Except CryptoError Nat := do
  let plaintextSize ← byteCount plaintextSize "file size"
  let trailer ← trailerLength thumbnailBytes
  let suite ← checkSuite suite
  if suite < CONTENT_SUITE then
    .ok plaintextSize
  else
    let padded ← paddedLength (plaintextSize + trailer)
    .ok (padded - trailer)

/-- The whole object: every chunk with its tag, then the trailer. -/
def ciphertextSize (suite plaintextSize thumbnailBytes : Nat) :
    Except CryptoError Nat := do
  let length ← contentLength suite plaintextSize thumbnailBytes
  let count ← chunkCount length
  let trailer ← trailerLength thumbnailBytes
  .ok (length + CHUNK_TAG_BYTES * count + trailer)

/-- A range of bytes to fetch, its last byte included. -/
structure Range where
  start : Nat
  end_ : Nat
  deriving DecidableEq, Repr

/-- How many bytes a range is of. -/
def Range.bytes (range : Range) : Nat :=
  range.end_ + 1 - range.start

/-- The bytes to fetch for a thumbnail: the object's last 64 KiB and a tag. -/
def thumbnailRange (suite plaintextSize thumbnailBytes : Nat) :
    Except CryptoError Range :=
  if thumbnailBytes < 1 then
    .error ⟨"This file has no thumbnail."⟩
  else do
    let size ← ciphertextSize suite plaintextSize thumbnailBytes
    let window ← trailerLength THUMBNAIL_MAX_BYTES
    .ok { start := size - 1 + 1 - window, end_ := size - 1 }

/--
The bytes of a part, as the server can know it: a full chunk with its tag, and
of the last one what is left, which is below nothing for an impossible size.
-/
def partLength (ciphertextSize chunkCount partNumber : Nat) :
    Except CryptoError Int :=
  if partNumber < 1 ∨ chunkCount < partNumber then
    .error (invalid "part number")
  else if partNumber < chunkCount then
    .ok (CHUNK_SIZE + CHUNK_TAG_BYTES)
  else
    .ok (ciphertextSize - (chunkCount - 1) * (CHUNK_SIZE + CHUNK_TAG_BYTES))

/-- Whether an object of some chunks can be of some size. -/
def validObjectSize (ciphertextSize chunkCount : Nat) : Bool :=
  if maxSafe < ciphertextSize ∨ maxSafe < chunkCount ∨ chunkCount < 1 then
    false
  else
    match partLength ciphertextSize chunkCount chunkCount with
    | .error _ => false
    | .ok last =>
      let least :=
        if chunkCount = 1 then CHUNK_TAG_BYTES else CHUNK_TAG_BYTES + 1
      (least ≤ last &&
        last ≤ CHUNK_SIZE + CHUNK_TAG_BYTES + THUMBNAIL_MAX_BYTES +
          CHUNK_TAG_BYTES)

/-- The bytes of a stream in one of its chunks, or refused. -/
def chunkPlaintextLength (length index : Nat) : Except CryptoError Nat := do
  let count ← chunkCount length
  if count ≤ index then
    .error (invalid "chunk index")
  else if index < count - 1 then
    .ok CHUNK_SIZE
  else
    .ok (length - index * CHUNK_SIZE)

/-- The bytes of a chunk with its tag, or refused. -/
def chunkCiphertextLength (length index : Nat) : Except CryptoError Nat := do
  let plaintext ← chunkPlaintextLength length index
  .ok (plaintext + CHUNK_TAG_BYTES)

/-- The bytes to fetch for a chunk, the last one's on to the object's end. -/
def chunkRange (suite plaintextSize thumbnailBytes index : Nat) :
    Except CryptoError Range := do
  let length ← contentLength suite plaintextSize thumbnailBytes
  let start := index * (CHUNK_SIZE + CHUNK_TAG_BYTES)
  let count ← chunkCount length
  if index = count - 1 then
    let size ← ciphertextSize suite plaintextSize thumbnailBytes
    .ok { start := start, end_ := size - 1 }
  else
    let ciphertext ← chunkCiphertextLength length index
    .ok { start := start, end_ := start + ciphertext - 1 }

/-- The part of a chunk's plaintext that is the file. -/
def fileBytesOf (chunk : Bytes) (plaintextSize index : Nat) : Bytes :=
  chunk.take (min chunk.length (plaintextSize - index * CHUNK_SIZE))

/-- A chunk as the writer reads it: the file's bytes there, and then zeros. -/
def readChunk (file : Bytes) (length index : Nat) :
    Except CryptoError Bytes := do
  let bytes ← chunkPlaintextLength length index
  let start := index * CHUNK_SIZE
  let found := Slices.slice file start (start + bytes)
  .ok (found ++ List.replicate (bytes - found.length) 0)

/-- A chunk's context agrees with itself: the count is the layout's. -/
def checkChunkContext (suite plaintextSize thumbnailBytes count : Nat) :
    Except CryptoError Nat := do
  let length ← contentLength suite plaintextSize thumbnailBytes
  let expected ← chunkCount length
  if count ≠ expected then .error (invalid "chunk") else .ok length

theorem le_clearLow (length bits : Nat) :
    length ≤ clearLow (length + (2 ^ bits - 1)) bits := by
  have positive : 0 < 2 ^ bits := Nat.two_pow_pos bits
  have parts := Nat.div_add_mod (length + (2 ^ bits - 1)) (2 ^ bits)
  have small := Nat.mod_lt (length + (2 ^ bits - 1)) positive
  rw [clearLow, Nat.shiftRight_eq_div_pow, Nat.shiftLeft_eq, Nat.mul_comm]
  omega

theorem paddedLength_bounds
    {length padded : Nat}
    (rounded : paddedLength length = .ok padded) :
    length ≤ padded ∧ padded ≤ maxSafe := by
  unfold paddedLength at rounded
  split at rounded
  · simp at rounded
  · split at rounded
    · next small =>
        cases rounded
        exact ⟨small, by decide⟩
    · dsimp only at rounded
      split at rounded
      · simp at rounded
      · next within =>
          cases rounded
          exact ⟨le_clearLow .., not_lt.mp within⟩

/-- What an accepted content length is of. -/
structure Covers
    (suite plaintextSize thumbnailBytes length : Nat) :
    Prop where
  suite : suite ∈ READABLE_CONTENT_SUITES
  thumbnail : thumbnailBytes ≤ THUMBNAIL_MAX_BYTES
  file : plaintextSize ≤ length
  exact_ : length ≤ maxSafe

/-- The content length covers exactly the chunks and the thumbnail. -/
theorem covers_of_contentLength
    {suite plaintextSize thumbnailBytes length : Nat}
    (covered : contentLength suite plaintextSize thumbnailBytes = .ok length) :
    Covers suite plaintextSize thumbnailBytes length := by
  simp only [contentLength, bind_eq_ok] at covered
  obtain ⟨size, counted, trailer, trailed, found, readable, covered⟩ := covered
  have isSize : plaintextSize ≤ maxSafe ∧ plaintextSize = size := by
    simpa [byteCount, ite_eq_iff] using counted
  have isTrailer : thumbnailBytes ≤ THUMBNAIL_MAX_BYTES := by
    by_contra tooLong
    simp [trailerLength, tooLong] at trailed
  have isSuite : suite ∈ READABLE_CONTENT_SUITES := by
    by_contra unread
    simp [checkSuite, unread] at readable
  obtain ⟨exact_, rfl⟩ := isSize
  split at covered
  · cases covered
    exact ⟨isSuite, isTrailer, le_rfl, exact_⟩
  · rw [bind_eq_ok] at covered
    obtain ⟨padded, rounded, covered⟩ := covered
    obtain ⟨holds, within⟩ := paddedLength_bounds rounded
    cases covered
    exact ⟨isSuite, isTrailer, by omega, by omega⟩

theorem one_le_chunksOver (length : Nat) : 1 ≤ chunksOver length :=
  le_max_left ..

theorem le_chunksOver (length : Nat) :
    length ≤ chunksOver length * CHUNK_SIZE := by
  have parts := Nat.div_add_mod (length + CHUNK_SIZE - 1) CHUNK_SIZE
  have small := Nat.mod_lt (length + CHUNK_SIZE - 1)
    (show 0 < CHUNK_SIZE by decide)
  have most : (length + CHUNK_SIZE - 1) / CHUNK_SIZE ≤ chunksOver length :=
    le_max_right ..
  calc length
      ≤ CHUNK_SIZE * ((length + CHUNK_SIZE - 1) / CHUNK_SIZE) := by omega
    _ ≤ chunksOver length * CHUNK_SIZE := by
        rw [Nat.mul_comm]
        exact Nat.mul_le_mul_right CHUNK_SIZE most

theorem chunksOver_lt
    {length index : Nat}
    (before : index + 1 < chunksOver length) :
    (index + 1) * CHUNK_SIZE < length := by
  have parts := Nat.div_mul_le_self (length + CHUNK_SIZE - 1) CHUNK_SIZE
  have positive : 0 < CHUNK_SIZE := by
    decide
  have many : index + 2 ≤ (length + CHUNK_SIZE - 1) / CHUNK_SIZE := by
    unfold chunksOver at before
    omega
  have scaled := Nat.mul_le_mul_right CHUNK_SIZE many
  have split_ : (index + 2) * CHUNK_SIZE =
      (index + 1) * CHUNK_SIZE + CHUNK_SIZE := by
    ring
  omega

end Content

end HushOS
