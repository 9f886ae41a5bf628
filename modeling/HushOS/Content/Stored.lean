import HushOS.Content.Objects

namespace HushOS

open Toolkit List

namespace Content

/-!
# Writing an object and reading it back

The writer seals a file's chunks and puts the thumbnail's trailer behind them;
the reader fetches a chunk's range, opens the front of it and keeps the part
that is the file.  Each reads exactly what the other wrote.
-/

/--
Authenticated encryption under one object's key, nonce and context, by chunk,
as its library documents it.
-/
structure Aead where
  encrypt : Nat → Bytes → Bytes
  decrypt : Nat → Bytes → Option Bytes
  length_encrypt : ∀ index plaintext,
    (encrypt index plaintext).length = plaintext.length + CHUNK_TAG_BYTES
  decrypt_encrypt : ∀ index plaintext,
    decrypt index (encrypt index plaintext) = some plaintext

/-- An object's layout: its suite, its file's size and its thumbnail's. -/
structure Layout where
  suite : Nat
  plaintextSize : Nat
  thumbnailBytes : Nat
  deriving DecidableEq, Repr

def DAMAGED : CryptoError :=
  ⟨"This file could not be decrypted. It may be damaged."⟩

/-- The bytes of a range of an object, as the store gives them. -/
def fetched (object : Bytes) (range : Range) : Bytes :=
  Slices.slice object range.start (range.end_ + 1)

/-- The trailer of a fetched window: its end. -/
def trailerOf (window : Bytes) (thumbnailBytes : Nat) :
    Except CryptoError Bytes := do
  let length ← trailerLength thumbnailBytes
  if window.length < length ∨ thumbnailBytes < 1 then
    .error ⟨"This thumbnail could not be decrypted. It may be damaged."⟩
  else
    .ok (window.drop (window.length - length))

section Chunks

variable (cipher : Aead)

/-- A chunk sealed, if it is as long as the layout gives its index. -/
def encryptChunk (plaintext : Bytes) (layout : Layout) (count index : Nat) :
    Except CryptoError Bytes := do
  let length ← checkChunkContext layout.suite layout.plaintextSize
    layout.thumbnailBytes count
  let bytes ← chunkPlaintextLength length index
  if plaintext.length ≠ bytes then
    .error (invalid "chunk")
  else
    .ok (cipher.encrypt index plaintext)

/-- A chunk opened, the last one with whatever was fetched behind it. -/
def decryptChunk (ciphertext : Bytes) (layout : Layout) (count index : Nat) :
    Except CryptoError Bytes := do
  let length ← withReason DAMAGED (do
    let length ← checkChunkContext layout.suite layout.plaintextSize
      layout.thumbnailBytes count
    chunkCiphertextLength length index)
  if (if index = count - 1 then ciphertext.length < length
      else ciphertext.length ≠ length) then
    .error DAMAGED
  else
    match cipher.decrypt index (ciphertext.take length) with
    | some plaintext => .ok plaintext
    | none => .error DAMAGED

/-- An object as the writer stores it: its chunks sealed, then the trailer. -/
def storedObject (file trailer : Bytes) (layout : Layout) :
    Except CryptoError Bytes := do
  let length ← contentLength layout.suite layout.plaintextSize
    layout.thumbnailBytes
  let count ← chunkCount length
  let parts ← readEach
    (fun index => do
      let chunk ← readChunk file length index
      encryptChunk cipher chunk layout count index)
    (List.range count)
  .ok (parts.flatten ++ trailer)

/-- A chunk of an object as a reader downloads it: the file's part of it. -/
def downloadChunk (object : Bytes) (layout : Layout) (count index : Nat) :
    Except CryptoError Bytes := do
  let range ← chunkRange layout.suite layout.plaintextSize
    layout.thumbnailBytes index
  let plaintext ←
    decryptChunk cipher (fetched object range) layout count index
  .ok (fileBytesOf plaintext layout.plaintextSize index)

end Chunks

section Reading

variable {cipher : Aead} {layout : Layout} {length size index : Nat}
  {file trailer : Bytes}

/-- A layout whose sizes are accepted. -/
abbrev Layout.Sized (layout : Layout) (length size : Nat) : Prop :=
  Content.Sized layout.suite layout.plaintextSize layout.thumbnailBytes
    length size

theorem checkChunkContext_eq (sized : layout.Sized length size) :
    checkChunkContext layout.suite layout.plaintextSize layout.thumbnailBytes
      (chunksOver length) = .ok length := by
  rw [checkChunkContext, sized.covered, ok_bind, chunkCount,
    if_pos sized.covers.exact_, ok_bind, if_neg (not_not.mpr rfl)]

theorem encryptChunk_eq
    (sized : layout.Sized length size)
    (below : index < chunksOver length) :
    encryptChunk cipher (plainChunk file length index) layout
      (chunksOver length) index =
        .ok (cipher.encrypt index (plainChunk file length index)) := by
  rw [encryptChunk, checkChunkContext_eq sized, ok_bind,
    chunkPlaintextLength_eq sized.covers.exact_ below, ok_bind,
    if_neg (not_not.mpr length_plainChunk)]

/-- The sealed chunks of a file, end to end. -/
def sealedChunks (cipher : Aead) (file : Bytes) (length : Nat) : Bytes :=
  (List.range (chunksOver length)).flatMap fun index =>
    cipher.encrypt index (plainChunk file length index)

/-- The stored object is the sealed chunks and then the trailer. -/
theorem storedObject_eq (sized : layout.Sized length size) :
    storedObject cipher file trailer layout =
      .ok (sealedChunks cipher file length ++ trailer) := by
  have sealed : readEach
      (fun index => do
        let chunk ← readChunk file length index
        encryptChunk cipher chunk layout (chunksOver length) index)
      (List.range (chunksOver length)) =
        .ok ((List.range (chunksOver length)).map fun index =>
          cipher.encrypt index (plainChunk file length index)) := by
    refine readEach_eq_map fun index member => ?_
    have below := mem_range.mp member
    rw [readChunk_eq sized.covers.exact_ below, ok_bind,
      encryptChunk_eq sized below]
  rw [storedObject, sized.covered, ok_bind, chunkCount,
    if_pos sized.covers.exact_, ok_bind, sealed, ok_bind, sealedChunks,
    flatMap_def]

/-- Where a sealed chunk starts, and where the trailer does. -/
def chunkCut (length index : Nat) : Nat :=
  plainCut length index + CHUNK_TAG_BYTES * index

theorem monotone_chunkCut (length : Nat) : Monotone (chunkCut length) :=
  fun _ _ rises => Nat.add_le_add (monotone_plainCut length rises)
    (Nat.mul_le_mul_left CHUNK_TAG_BYTES rises)

theorem chunkCut_succ (cipher : Aead) (file : Bytes) (length index : Nat) :
    chunkCut length (index + 1) = chunkCut length index +
      (cipher.encrypt index (plainChunk file length index)).length := by
  have rises := monotone_plainCut length (Nat.le_succ index)
  have whole : plainCut length index +
      (plainCut length (index + 1) - plainCut length index) =
        plainCut length (index + 1) :=
    Nat.add_sub_cancel' rises
  rw [cipher.length_encrypt, length_plainChunk, chunkCut, chunkCut,
    Nat.mul_succ]
  omega

theorem length_sealedChunks :
    (sealedChunks cipher file length).length =
      length + CHUNK_TAG_BYTES * chunksOver length := by
  have start : chunkCut length 0 = 0 := by
    simp [chunkCut, plainCut]
  rw [sealedChunks, Slices.length_flatMap start
    fun index _ => chunkCut_succ cipher file length index, chunkCut,
    plainCut_chunksOver]

theorem sealedCut_eq (below : index < chunksOver length) :
    sealedCut length size index = chunkCut length index := by
  rw [sealedCut, if_pos below, chunkCut, plainCut_of_lt below]
  ring

theorem length_object
    (sized : layout.Sized length size)
    (trailed : trailer.length = trailerBytes layout.thumbnailBytes) :
    (sealedChunks cipher file length ++ trailer).length = size := by
  rw [length_append, length_sealedChunks, trailed, sized.size]

theorem sealedCut_succ_bounds
    (sized : layout.Sized length size)
    (below : index < chunksOver length) :
    chunkCut length (index + 1) ≤ sealedCut length size (index + 1) ∧
      sealedCut length size (index + 1) ≤ size := by
  have whole : chunkCut length (chunksOver length) ≤ size := by
    rw [chunkCut, plainCut_chunksOver, sized.size]
    exact Nat.le_add_right ..
  by_cases before : index + 1 < chunksOver length
  · rw [sealedCut_eq before]
    exact ⟨le_rfl, (monotone_chunkCut length before.le).trans whole⟩
  · have isLast : index + 1 = chunksOver length := by omega
    rw [sealedCut, if_neg before, isLast]
    exact ⟨whole, le_rfl⟩

/-- A fetched range starts with the chunk that was sealed there. -/
theorem take_fetched
    (sized : layout.Sized length size)
    (below : index < chunksOver length) :
    (fetched (sealedChunks cipher file length ++ trailer)
        (between (sealedCut length size index)
          (sealedCut length size (index + 1)))).take
      (cipher.encrypt index (plainChunk file length index)).length =
        cipher.encrypt index (plainChunk file length index) := by
  have further := (sealedCut_succ_bounds sized below).1
  have starts := @sealedCut_eq length size index below
  have rises := sized.rises below
  have start : chunkCut length 0 = 0 := by
    simp [chunkCut, plainCut]
  have inside : chunkCut length (index + 1) ≤
      (sealedChunks cipher file length).length := by
    rw [length_sealedChunks]
    calc chunkCut length (index + 1)
        ≤ chunkCut length (chunksOver length) :=
          monotone_chunkCut length below
      _ = length + CHUNK_TAG_BYTES * chunksOver length := by
          rw [chunkCut, plainCut_chunksOver]
  have ends : sealedCut length size (index + 1) - 1 + 1 =
      sealedCut length size (index + 1) := by
    omega
  have next := chunkCut_succ cipher file length index
  calc (fetched (sealedChunks cipher file length ++ trailer)
          (between (sealedCut length size index)
            (sealedCut length size (index + 1)))).take
        (cipher.encrypt index (plainChunk file length index)).length
      = Slices.slice (sealedChunks cipher file length ++ trailer)
          (chunkCut length index)
          (min (sealedCut length size (index + 1))
            (chunkCut length (index + 1))) := by
        rw [fetched, between, ends, starts, Slices.take_slice, next]
    _ = Slices.slice (sealedChunks cipher file length) (chunkCut length index)
          (chunkCut length (index + 1)) := by
        rw [min_eq_right further, Slices.slice_append_of_le inside]
    _ = cipher.encrypt index (plainChunk file length index) :=
        Slices.slice_flatMap start
          (fun index _ => chunkCut_succ cipher file length index) below

theorem length_fetched
    (sized : layout.Sized length size)
    (trailed : trailer.length = trailerBytes layout.thumbnailBytes)
    (below : index < chunksOver length) :
    (fetched (sealedChunks cipher file length ++ trailer)
        (between (sealedCut length size index)
          (sealedCut length size (index + 1)))).length =
      sealedCut length size (index + 1) - sealedCut length size index := by
  have rises := sized.rises below
  have ends : sealedCut length size (index + 1) - 1 + 1 =
      sealedCut length size (index + 1) := by
    omega
  rw [fetched, between, ends, Slices.length_slice,
    length_object sized trailed,
    min_eq_left (sealedCut_succ_bounds sized below).2]

/-- A downloaded chunk gives back its bytes of the file. -/
theorem downloadChunk_eq
    (sized : layout.Sized length size)
    (trailed : trailer.length = trailerBytes layout.thumbnailBytes)
    (below : index < chunksOver length) :
    downloadChunk cipher (sealedChunks cipher file length ++ trailer) layout
      (chunksOver length) index =
        .ok (fileBytesOf (plainChunk file length index)
          layout.plaintextSize index) := by
  have bytes : chunkCiphertextLength length index =
      .ok (cipher.encrypt index (plainChunk file length index)).length := by
    rw [chunkCiphertextLength,
      chunkPlaintextLength_eq sized.covers.exact_ below, ok_bind,
      cipher.length_encrypt, length_plainChunk]
  have next := chunkCut_succ cipher file length index
  have fits : ¬ (if index = chunksOver length - 1 then
      (fetched (sealedChunks cipher file length ++ trailer)
        (between (sealedCut length size index)
          (sealedCut length size (index + 1)))).length <
        (cipher.encrypt index (plainChunk file length index)).length
      else
        (fetched (sealedChunks cipher file length ++ trailer)
          (between (sealedCut length size index)
            (sealedCut length size (index + 1)))).length ≠
          (cipher.encrypt index (plainChunk file length index)).length) := by
    rw [length_fetched sized trailed below, sealedCut_eq below]
    split
    · have further := (sealedCut_succ_bounds sized below).1
      omega
    · rw [sealedCut_eq (by omega)]
      omega
  rw [downloadChunk, sized.chunkRange below, ok_bind, decryptChunk,
    checkChunkContext_eq sized, ok_bind, bytes, withReason, ok_bind,
    if_neg fits, take_fetched sized below, cipher.decrypt_encrypt, ok_bind]

/-- The thumbnail's range fetches exactly the trailer. -/
theorem trailerOf_eq
    (sized : layout.Sized length size)
    (trailed : trailer.length = trailerBytes layout.thumbnailBytes)
    (some_ : 1 ≤ layout.thumbnailBytes) :
    ∃ window,
      thumbnailRange layout.suite layout.plaintextSize
        layout.thumbnailBytes = .ok window ∧
      window.start + trailer.length ≤ size ∧ window.end_ = size - 1 ∧
      trailerOf (fetched (sealedChunks cipher file length ++ trailer) window)
        layout.thumbnailBytes = .ok trailer := by
  have small := sized.covers.thumbnail
  have whole : trailerLength THUMBNAIL_MAX_BYTES =
      .ok (THUMBNAIL_MAX_BYTES + CHUNK_TAG_BYTES) := by
    decide
  have held : trailer.length ≤ THUMBNAIL_MAX_BYTES + CHUNK_TAG_BYTES := by
    rw [trailed, trailerBytes, if_pos (Nat.lt_of_lt_of_le Nat.one_pos some_)]
    omega
  have long := @length_object cipher layout length size file trailer sized
    trailed
  have positive : 1 ≤ size := by
    have tag : 1 ≤ CHUNK_TAG_BYTES * chunksOver length :=
      Nat.mul_pos (by decide) (one_le_chunksOver length)
    rw [sized.size]
    omega
  have within : trailer.length ≤ size := by
    rw [← long, length_append]
    exact Nat.le_add_left ..
  refine ⟨⟨size - 1 + 1 - (THUMBNAIL_MAX_BYTES + CHUNK_TAG_BYTES), size - 1⟩,
    ?_, ?_, rfl, ?_⟩
  · rw [thumbnailRange, if_neg (by omega), sized.ciphertextSize, ok_bind,
      whole, ok_bind]
  · dsimp only
    omega
  · have ends : size - 1 + 1 = size := Nat.sub_add_cancel positive
    have covers : (sealedChunks cipher file length ++ trailer).length ≤ size :=
      long.le
    rw [trailerOf, trailerLength, if_pos small, ok_bind, ← trailed, fetched]
    simp only [ends]
    rw [Slices.slice_of_length_le covers, length_drop, long,
      if_neg (by omega), drop_drop, drop_left' ?_]
    rw [length_append] at long
    omega

end Reading

/-- What a layout's ranges are of an object of some size. -/
structure Divides (layout : Layout) (size length count : Nat) : Prop where
  covered : contentLength layout.suite layout.plaintextSize
    layout.thumbnailBytes = .ok length
  counted : chunkCount length = .ok count
  /-- The ranges of the chunks are end to end, from the start to the end. -/
  ranges : ∃ ranges,
    readEach (chunkRange layout.suite layout.plaintextSize
      layout.thumbnailBytes) (List.range count) = .ok ranges ∧
    ranges.length = count ∧ Tiles 0 ranges size ∧
    ∀ index range, ranges[index]? = some range →
      partLength size count (index + 1) = .ok range.bytes
  /-- The server takes the object's size. -/
  valid : validObjectSize size count = true

/-- What is written of a file under a layout, and read of it. -/
structure ReadsBack
    (cipher : Aead)
    (layout : Layout)
    (size count : Nat)
    (file trailer object : Bytes) :
    Prop where
  stored : storedObject cipher file trailer layout = .ok object
  length : object.length = size
  /-- The file's parts of all chunks, end to end, are the file. -/
  file : ∃ pieces,
    readEach (downloadChunk cipher object layout count) (List.range count) =
      .ok pieces ∧
    pieces.flatten = file
  /-- The trailer is inside the window fetched for the thumbnail. -/
  thumbnail : 1 ≤ layout.thumbnailBytes → ∃ window,
    thumbnailRange layout.suite layout.plaintextSize
      layout.thumbnailBytes = .ok window ∧
    window.start + trailer.length ≤ size ∧ window.end_ = size - 1 ∧
    trailerOf (fetched object window) layout.thumbnailBytes = .ok trailer

/-- A sized layout divides its object into chunks and trailer. -/
theorem divides_of_sized
    {layout : Layout}
    {length size : Nat}
    (sized : layout.Sized length size)
    (exact_ : size ≤ maxSafe) :
    Divides layout size length (chunksOver length) where
  covered := sized.covered
  counted := if_pos sized.covers.exact_
  ranges := by
    have start : sealedCut length size 0 = 0 := by
      rw [sealedCut, if_pos (Nat.lt_of_lt_of_le Nat.one_pos
        (one_le_chunksOver length)), Nat.zero_mul]
    have stop : sealedCut length size (chunksOver length) = size :=
      if_neg (lt_irrefl _)
    refine ⟨_, readEach_eq_map fun index member =>
      sized.chunkRange (mem_range.mp member), ?_, ?_, ?_⟩
    · rw [length_map, length_range]
    · have tiled := @tiles_between (sealedCut length size)
        (chunksOver length) fun index below => sized.rises below
      rwa [start, stop] at tiled
    · intro index range found
      obtain ⟨below, rfl⟩ : index < chunksOver length ∧
          between (sealedCut length size index)
            (sealedCut length size (index + 1)) = range := by
        rw [getElem?_map] at found
        by_cases below : index < chunksOver length
        · rw [getElem?_range below] at found
          exact ⟨below, Option.some.inj found⟩
        · rw [getElem?_eq_none (by simpa using below)] at found
          simp at found
      have rises := sized.rises below
      have bytes : (between (sealedCut length size index)
          (sealedCut length size (index + 1))).bytes =
            sealedCut length size (index + 1) -
              sealedCut length size index := by
        rw [between, Range.bytes, Nat.sub_add_cancel (by omega)]
      rw [sized.partLength below, bytes]
  valid := sized.validObjectSize exact_

/-- An object of a sized layout is read back whole. -/
theorem readsBack_of_sized
    {layout : Layout}
    {length size : Nat}
    (sized : layout.Sized length size)
    (cipher : Aead)
    {file trailer : Bytes}
    (whole : file.length = layout.plaintextSize)
    (trailed : trailer.length = trailerBytes layout.thumbnailBytes) :
    ReadsBack cipher layout size (chunksOver length) file trailer
      (sealedChunks cipher file length ++ trailer) where
  stored := storedObject_eq sized
  length := length_object sized trailed
  file := by
    have covers : file.length ≤ length := by
      rw [whole]
      exact sized.covers.file
    refine ⟨_, readEach_eq_map fun index member =>
      downloadChunk_eq sized trailed (mem_range.mp member), ?_⟩
    rw [← flatMap_def, ← whole]
    exact flatMap_fileBytesOf covers
  thumbnail := trailerOf_eq sized trailed

/--
Whatever the suite, the file's size and the thumbnail's, the writer's chunks,
the reader's ranges and the server's parts are one division of the object: the
ranges tile it, every part is as long as expected, the file is read back with
nothing of the trailer or the padding, and the thumbnail's window holds it.
-/
theorem divides_object
    (layout : Layout)
    (size : Nat)
    (sized : ciphertextSize layout.suite layout.plaintextSize
      layout.thumbnailBytes = .ok size)
    (exact_ : size ≤ maxSafe) :
    ∃ length count, Divides layout size length count ∧
      ∀ (cipher : Aead) (file trailer : Bytes),
        file.length = layout.plaintextSize →
        trailer.length = trailerBytes layout.thumbnailBytes →
        ∃ object, ReadsBack cipher layout size count file trailer object := by
  obtain ⟨length, accepted⟩ := sized_of_ciphertextSize sized
  refine ⟨length, chunksOver length, divides_of_sized accepted exact_, ?_⟩
  intro cipher file trailer whole trailed
  exact ⟨_, readsBack_of_sized accepted cipher whole trailed⟩

/-- A cipher that marks a chunk with its index. -/
def marking : Aead where
  encrypt index plaintext :=
    (plaintext ++ List.replicate CHUNK_TAG_BYTES (UInt8.ofNat index) : List UInt8)
  decrypt index ciphertext :=
    let length := ciphertext.length - CHUNK_TAG_BYTES
    if ciphertext.drop length = .replicate CHUNK_TAG_BYTES (.ofNat index) then
      some (ciphertext.take length)
    else
      none
  length_encrypt index plaintext := by
    rw [length_append, length_replicate]
  decrypt_encrypt index plaintext := by
    simp

/-- A file of nine mebibytes with a thumbnail is two chunks, padded. -/
theorem divides_object_padded :
    ∃ length count object,
      Divides ⟨CONTENT_SUITE, 9 * 1024 * 1024, 2000⟩ 9699360 length count ∧
        count = 2 ∧
        ReadsBack marking ⟨CONTENT_SUITE, 9 * 1024 * 1024, 2000⟩ 9699360 count
          (List.replicate (9 * 1024 * 1024) 7)
          (List.replicate (trailerBytes 2000) 5) object := by
  obtain ⟨length, count, divides, reads⟩ := divides_object
    ⟨CONTENT_SUITE, 9 * 1024 * 1024, 2000⟩ 9699360 (by rfl) (by decide)
  obtain ⟨object, readsBack⟩ := reads marking _ _
    (length_replicate ..) (length_replicate ..)
  refine ⟨length, count, object, divides, ?_, readsBack⟩
  have covered : contentLength CONTENT_SUITE (9 * 1024 * 1024) 2000 =
      .ok 9697312 := rfl
  have counted : chunkCount 9697312 = .ok 2 := rfl
  obtain rfl : 9697312 = length :=
    Except.ok.inj (covered.symm.trans divides.covered)
  exact (Except.ok.inj (counted.symm.trans divides.counted)).symm

end Content

end HushOS
