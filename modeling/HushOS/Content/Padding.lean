import HushOS.Content.Framing
import HushOS.Toolkit.Rounding

namespace HushOS

open Toolkit

namespace Content

/-!
# Padmé buckets

Every length up to 256 bytes is one bucket, and from there each power of two
holds a few.  A stored object's size is that of its bucket with a tag for each
chunk, whatever the file and its thumbnail are.
-/

/-- The bucket of a length, whether or not a client counts it exactly. -/
def bucket (length : Nat) : Nat :=
  if length ≤ 256 then
    256
  else
    clearLow (length + (2 ^ paddedBits length - 1)) (paddedBits length)

variable {length : Nat}

theorem paddedLength_eq
    (safe : length ≤ maxSafe) :
    paddedLength length =
      if maxSafe < bucket length then
        .error (invalid "file size")
      else
        .ok (bucket length) := by
  rw [paddedLength, if_neg (not_lt.mpr safe), bucket]
  split
  · rfl
  · rfl

theorem clearLow_eq_roundUp (length bits : Nat) :
    clearLow (length + (2 ^ bits - 1)) bits = Rounding.roundUp (2 ^ bits) length := by
  have positive := Nat.two_pow_pos bits
  rw [clearLow, Nat.shiftRight_eq_div_pow, Nat.shiftLeft_eq, Rounding.roundUp,
    Nat.ceilDiv_eq_add_pred_div, Nat.add_sub_assoc positive, Nat.mul_comm]

theorem bucket_of_le
    (small : length ≤ 256) :
    bucket length = 256 :=
  if_pos small

theorem bucket_eq_padme
    (large : 256 ≤ length) :
    bucket length = Rounding.padme length := by
  rcases large.eq_or_lt with rfl | above
  · exact (Rounding.padme_two_pow 8).symm
  · rw [bucket, if_neg (not_le.mpr above), clearLow_eq_roundUp]
    rfl

theorem le_bucket (length : Nat) : length ≤ bucket length := by
  rcases Nat.le_total 256 length with large | small
  · rw [bucket_eq_padme large]
    exact Rounding.le_padme length
  · rw [bucket_of_le small]
    exact small

theorem le_bucket_256 (length : Nat) : 256 ≤ bucket length := by
  rcases Nat.le_total 256 length with large | small
  · exact large.trans (le_bucket length)
  · rw [bucket_of_le small]

theorem bucket_mono : Monotone bucket := by
  intro smaller larger ordered
  rcases Nat.le_total 256 smaller with large | small
  · rw [bucket_eq_padme large, bucket_eq_padme (large.trans ordered)]
    exact Rounding.padme_mono (by omega) ordered
  · rw [bucket_of_le small]
    exact le_bucket_256 larger

theorem bucket_bucket (length : Nat) : bucket (bucket length) = bucket length := by
  rcases Nat.le_total 256 length with large | small
  · rw [bucket_eq_padme (le_bucket_256 length), bucket_eq_padme large]
    exact Rounding.padme_padme (by omega)
  · rw [bucket_of_le small]
    exact bucket_of_le (Nat.le_refl _)

theorem eight_le_log2
    (large : 256 ≤ length) :
    8 ≤ Nat.log2 length :=
  (Nat.le_log2 (by omega)).mpr large

theorem keptBits_le
    {exponent : Nat}
    (large : 8 ≤ exponent) :
    Rounding.keptBits exponent ≤ exponent :=
  (Nat.log2_lt (by omega)).mpr Nat.lt_two_pow_self

theorem bucket_of_padded
    {length padded : Nat}
    (rounded : paddedLength length = .ok padded) :
    length ≤ maxSafe ∧ bucket length ≤ maxSafe ∧ padded = bucket length := by
  have safe : length ≤ maxSafe := by
    by_contra unsafe_
    rw [paddedLength, if_pos (not_le.mp unsafe_)] at rounded
    cases rounded
  rw [paddedLength_eq safe] at rounded
  split at rounded
  · cases rounded
  · next within =>
      cases rounded
      exact ⟨safe, not_lt.mp within, rfl⟩

/-- The buckets from one power of two to the next. -/
def buckets (exponent : Nat) : Finset Nat :=
  if exponent < 8 then {256} else Rounding.paddings exponent

theorem card_buckets_le (exponent : Nat) :
    (buckets exponent).card ≤ 2 ^ (Nat.log2 exponent + 1) + 1 := by
  rw [buckets]
  split
  · rw [Finset.card_singleton]
    exact Nat.le_add_left 1 _
  · exact Rounding.card_paddings_le exponent

theorem bucket_mem_buckets
    {exponent length : Nat}
    (bottom : 2 ^ exponent ≤ length)
    (top : length ≤ 2 ^ (exponent + 1)) :
    bucket length ∈ buckets exponent := by
  rw [buckets]
  split
  · next small =>
      have within : 2 ^ (exponent + 1) ≤ 2 ^ 8 :=
        Nat.pow_le_pow_right (by decide) small
      rw [bucket_of_le (top.trans within)]
      exact Finset.mem_singleton_self 256
  · next large =>
      have above : 2 ^ 8 ≤ 2 ^ exponent :=
        Nat.pow_le_pow_right (by decide) (not_lt.mp large)
      rw [bucket_eq_padme (above.trans bottom)]
      exact Rounding.padme_mem_paddings (keptBits_le (not_lt.mp large)) bottom top

theorem dvd_bucket
    (past : CHUNK_SIZE < bucket length) :
    2 ^ 18 ∣ bucket length := by
  have above : 2 ^ 23 < length := by
    by_contra within
    have capped := bucket_mono (not_lt.mp within)
    rw [bucket_eq_padme (by decide : 256 ≤ 2 ^ 23), Rounding.padme_two_pow] at capped
    exact absurd past (not_lt.mpr capped)
  have exponent : 23 ≤ Nat.log2 length :=
    (Nat.le_log2 (by omega)).mpr above.le
  have cleared : 18 ≤ Rounding.clearedBits (Nat.log2 length) := by
    have base : Rounding.clearedBits 23 = 18 := by decide
    exact base.symm.le.trans (Rounding.clearedBits_mono exponent)
  rw [bucket_eq_padme (by omega)]
  exact (pow_dvd_pow 2 cleared).trans (Rounding.dvd_roundUp _ length)

theorem chunksOver_sub
    {length trailer : Nat}
    (small : trailer < 2 ^ 18) :
    chunksOver (bucket length - trailer) = chunksOver (bucket length) := by
  by_cases past : CHUNK_SIZE < bucket length
  · obtain ⟨count, equal⟩ := dvd_bucket past
    rw [equal, chunksOver, chunksOver]
    simp only [CHUNK_SIZE] at past ⊢
    omega
  · simp only [chunksOver, CHUNK_SIZE] at past ⊢
    omega

/-- The size stored is that of the padded length, tags included. -/
theorem ciphertextSize_bucket
    {plaintextSize thumbnailBytes stored : Nat}
    (sized : ciphertextSize CONTENT_SUITE plaintextSize thumbnailBytes =
      .ok stored) :
    ∃ padded,
      paddedLength (plaintextSize + trailerBytes thumbnailBytes) = .ok padded ∧
        stored = padded + CHUNK_TAG_BYTES * chunksOver padded := by
  simp only [ciphertextSize, bind_eq_ok] at sized
  obtain ⟨length, covered, count, counted, trailer, trailed, sized⟩ := sized
  cases sized
  simp only [contentLength, bind_eq_ok] at covered
  obtain ⟨size, sized, trailer', trailed', suite, readable, covered⟩ := covered
  have isSize : plaintextSize = size := by
    rw [byteCount] at sized
    split at sized
    · cases sized
      rfl
    · cases sized
  have isTrailer : thumbnailBytes ≤ THUMBNAIL_MAX_BYTES ∧
      trailerBytes thumbnailBytes = trailer := by
    rw [trailerLength] at trailed
    split at trailed
    · next within =>
        cases trailed
        exact ⟨within, rfl⟩
    · cases trailed
  obtain ⟨within, rfl⟩ := isTrailer
  have sameTrailer : trailerBytes thumbnailBytes = trailer' := by
    rw [trailerLength, if_pos within] at trailed'
    exact Except.ok.inj trailed'
  have isSuite : CONTENT_SUITE = suite := by
    cases readable
    rfl
  subst isSize sameTrailer isSuite
  rw [if_neg (by decide), bind_eq_ok] at covered
  obtain ⟨padded, rounded, covered⟩ := covered
  obtain ⟨_, _, rfl⟩ := bucket_of_padded rounded
  cases covered
  have isCount : chunksOver
      (bucket (plaintextSize + trailerBytes thumbnailBytes) -
        trailerBytes thumbnailBytes) = count := by
    rw [chunkCount] at counted
    split at counted
    · cases counted
      rfl
    · cases counted
  have small : trailerBytes thumbnailBytes < 2 ^ 18 := by
    have most : THUMBNAIL_MAX_BYTES = 65536 := rfl
    have tag : CHUNK_TAG_BYTES = 16 := rfl
    rw [trailerBytes]
    split
    · omega
    · decide
  rw [chunksOver_sub small] at isCount
  have holds := le_bucket (plaintextSize + trailerBytes thumbnailBytes)
  refine ⟨_, rounded, ?_⟩
  rw [← isCount]
  omega

/--
What `paddedLength` makes of lengths, and what a stored object's size tells: its
bucket, and nothing of the file or its thumbnail besides.
-/
theorem padded_lengths :
    (∀ length padded, paddedLength length = .ok padded →
      length ≤ padded ∧
        256 ≤ padded ∧
        paddedLength padded = .ok padded ∧
        (256 < length →
          (padded - length) * 2 ^ (Nat.log2 (Nat.log2 length) + 1) < length)) ∧
    (∀ shorter longer padded further,
      shorter ≤ longer →
      paddedLength shorter = .ok padded →
      paddedLength longer = .ok further →
      padded ≤ further) ∧
    (∀ length, length ≤ maxSafe →
      ((∃ error, paddedLength length = .error error) ↔ maxSafe < bucket length)) ∧
    (∀ exponent, ∃ values : Finset Nat,
      values.card ≤ 2 ^ (Nat.log2 exponent + 1) + 1 ∧
        ∀ length padded,
          2 ^ exponent ≤ length →
          length ≤ 2 ^ (exponent + 1) →
          paddedLength length = .ok padded →
          padded ∈ values) ∧
    ∀ plaintextSize thumbnailBytes stored,
      ciphertextSize CONTENT_SUITE plaintextSize thumbnailBytes = .ok stored →
      ∃ padded,
        paddedLength (plaintextSize + trailerBytes thumbnailBytes) = .ok padded ∧
          stored = padded + CHUNK_TAG_BYTES * chunksOver padded := by
  refine ⟨?_, ?_, ?_, ?_, ?_⟩
  · intro length padded rounded
    obtain ⟨safe, within, rfl⟩ := bucket_of_padded rounded
    refine ⟨le_bucket length, le_bucket_256 length, ?_, ?_⟩
    · rw [paddedLength_eq within, bucket_bucket, if_neg (not_lt.mpr within)]
    · intro above
      rw [bucket_eq_padme above.le]
      exact Rounding.padme_sub_lt (by omega) (keptBits_le (eight_le_log2 above.le))
  · intro shorter longer padded further ordered rounded rounded'
    obtain ⟨_, _, rfl⟩ := bucket_of_padded rounded
    obtain ⟨_, _, rfl⟩ := bucket_of_padded rounded'
    exact bucket_mono ordered
  · intro length safe
    rw [paddedLength_eq safe]
    split
    · next past => exact ⟨fun _ => past, fun _ => ⟨_, rfl⟩⟩
    · next within =>
        refine ⟨?_, fun past => absurd past within⟩
        rintro ⟨error, failed⟩
        cases failed
  · intro exponent
    refine ⟨buckets exponent, card_buckets_le exponent, ?_⟩
    intro length padded bottom top rounded
    obtain ⟨_, _, rfl⟩ := bucket_of_padded rounded
    exact bucket_mem_buckets bottom top
  · intro plaintextSize thumbnailBytes stored sized
    exact ciphertextSize_bucket sized

/-- A length past 256, and the largest that is padded. -/
theorem padded_lengths_some :
    1000 ≤ 1024 ∧ paddedLength 1024 = .ok 1024 ∧
      (2 ^ 53 - 2 ^ 46 ≤ maxSafe ∧
        ((∃ error, paddedLength (2 ^ 53 - 2 ^ 46) = .error error) ↔
          maxSafe < bucket (2 ^ 53 - 2 ^ 46))) :=
  have padded := padded_lengths.1 1000 1024 (by decide)
  ⟨padded.1, padded.2.2.1, by decide,
    padded_lengths.2.2.1 (2 ^ 53 - 2 ^ 46) (by decide)⟩

end Content

end HushOS
