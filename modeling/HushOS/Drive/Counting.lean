import HushOS.Drive.Stepping

namespace HushOS

open Toolkit List OrderedMap

namespace Drive

/-!
# Counters of runs

No run lets a counter fall below what it counts, so none is ever negative; and
where every step spares what is still counted, the counters are exact.
-/

section Empty

theorem gap_empty (workspaceId : Uuid) :
    gap .empty workspaceId = { used := 0, reserved := 0 } :=
  rfl

end Empty

theorem gap_nonneg_of_run (ops : List Op) (workspaceId : Uuid) :
    0 ≤ (gap (run .empty ops) workspaceId).used ∧
      0 ≤ (gap (run .empty ops) workspaceId).reserved := by
  have holds : Sound (run .empty ops) ∧
      0 ≤ (gap (run .empty ops) workspaceId).used ∧
        0 ≤ (gap (run .empty ops) workspaceId).reserved := by
    refine keeps_of_step (fun db => Sound db ∧
      0 ≤ (gap db workspaceId).used ∧ 0 ≤ (gap db workspaceId).reserved)
      ?_ ops ⟨sound_empty, by rw [gap_empty], by rw [gap_empty]⟩
    rintro db op ⟨sound, used, reserved⟩
    have trail := step_trail sound op
    obtain ⟨moreUsed, moreReserved⟩ := trail.gap_le sound workspaceId
    exact ⟨sound.trail trail, used.trans moreUsed,
      reserved.trans moreReserved⟩
  exact holds.2

theorem counters_nonneg
    (ops : List Op)
    {workspaceId : Uuid}
    {row : Storage}
    (found : (run .empty ops).storage.get? workspaceId = some row) :
    0 ≤ row.usedBytes ∧ 0 ≤ row.reservedBytes := by
  obtain ⟨used, reserved⟩ := gap_nonneg_of_run ops workspaceId
  have sound := sound_run sound_empty ops
  have ready : 0 ≤ readyBytes (run .empty ops) workspaceId :=
    total_nonneg fun _ version _ =>
      readyWeight_nonneg _ workspaceId version
  have held : 0 ≤ heldBytes (run .empty ops) workspaceId := by
    refine total_nonneg fun _ upload there => ?_
    unfold heldWeight
    split
    · exact sound.reservedNonneg there
    · exact le_refl 0
  simp only [gap, usedOf, reservedOf, found, Option.map_some,
    Option.getD_some] at used reserved
  omega

/--
In every run, whatever it does, a workspace's used bytes cover the sizes of its
ready versions' objects, and its reserved bytes what its live uploads reserve.
-/
theorem counters_cover
    (ops : List Op)
    {workspaceId : Uuid}
    {row : Storage}
    (found : (run .empty ops).storage.get? workspaceId = some row) :
    ((run .empty ops).versions.total fun _ version =>
        if version.workspaceId = workspaceId ∧ version.status = .ready then
          (((run .empty ops).sizeOf version.objectId).getD 0 : Int)
        else 0) ≤ row.usedBytes ∧
      ((run .empty ops).uploads.total fun _ upload =>
        if upload.workspaceId = workspaceId ∧ upload.status.live = true then
          upload.reservedBytes
        else 0) ≤ row.reservedBytes := by
  have covers := gap_nonneg_of_run ops workspaceId
  simp only [gap, usedOf, reservedOf, found, Option.map_some,
    Option.getD_some] at covers
  exact ⟨Int.sub_nonneg.mp covers.1, Int.sub_nonneg.mp covers.2⟩

/--
In every run whose steps spare what is still counted, a workspace's used bytes
are the sizes of its ready versions' objects, and its reserved bytes what its
live uploads reserve.
-/
theorem counters_exact
    (ops : List Op)
    (spares : Each Spares .empty ops)
    {workspaceId : Uuid}
    {row : Storage}
    (found : (run .empty ops).storage.get? workspaceId = some row) :
    row.usedBytes =
        ((run .empty ops).versions.total fun _ version =>
          if version.workspaceId = workspaceId ∧ version.status = .ready then
            (((run .empty ops).sizeOf version.objectId).getD 0 : Int)
          else 0) ∧
      row.reservedBytes =
        ((run .empty ops).uploads.total fun _ upload =>
          if upload.workspaceId = workspaceId ∧
              upload.status.live = true then
            upload.reservedBytes
          else 0) ∧
      0 ≤ row.usedBytes ∧ 0 ≤ row.reservedBytes := by
  have exact_ : Sound (run .empty ops) ∧
      gap (run .empty ops) workspaceId = { used := 0, reserved := 0 } := by
    refine keeps_of_each (fun db => Sound db ∧
      gap db workspaceId = { used := 0, reserved := 0 }) ?_ spares
      ⟨sound_empty, gap_empty workspaceId⟩
    rintro db op spared ⟨sound, even⟩
    have trail := step_trail sound op
    exact ⟨sound.trail trail,
      (trail.gap_eq sound spared workspaceId).trans even⟩
  obtain ⟨_, even⟩ := exact_
  simp only [gap, usedOf, reservedOf, found, Option.map_some,
    Option.getD_some, Gap.mk.injEq] at even
  obtain ⟨used, reserved⟩ := even
  refine ⟨Int.sub_eq_zero.mp used, Int.sub_eq_zero.mp reserved,
    counters_nonneg ops found⟩

section Tangled

/-- An upload of a new file under the root, or of the file it made. -/
def tangledUpload
    (node : UploadNode)
    (versionId objectId size uploadId : Nat) : UploadBegin where
  workspaceId := 1
  userId := 7
  node := node
  versionId := versionId
  envelopeLength := 84
  object :=
    { id := objectId
      objectKey := ⟨1, objectId⟩
      contentSuite := 3
      chunkSize := 1
      chunkCount := 1
      ciphertextSize := size }
  expiresAt := 10
  moveOf := none
  signed := true
  uploadId := uploadId
  now := 1

/--
A new file's upload is begun; a second upload is begun on the file's node, which
no feed shows yet.
-/
def tangling : List Op :=
  [.openWorkspace 1 none 1000,
    .allocateKeyEpochs 1 10 none 0,
    .createRoot 1 7 100 1 1 true 0,
    .beginUpload (tangledUpload (.fresh 101 100 2 1) 201 301 100 401),
    .beginUpload (tangledUpload (.existing 101 2 none) 202 302 50 402)]

/-- The first upload is aborted, and the node it made goes with it. -/
def tangled : List Op :=
  tangling ++ [.abortUpload 1 401 false 2]

/-- The second upload's reservation is left behind by an upload that is gone. -/
theorem tangled_drifts :
    ¬ ∀ ops workspaceId row,
        (run .empty ops).storage.get? workspaceId = some row →
          row.reservedBytes =
            (run .empty ops).uploads.total fun _ upload =>
              if upload.workspaceId = workspaceId ∧
                  upload.status.live = true then
                upload.reservedBytes
              else 0 := by
  intro all
  have left : (run .empty tangled).storage.get? 1 =
      some { baseQuotaBytes := 1000, usedBytes := 0, reservedBytes := 50 } := by
    decide
  have drift := all tangled 1 _ left
  revert drift
  decide

/-- What is left behind is covered. -/
theorem counters_cover_tangled :
    ((run .empty tangled).uploads.total fun _ upload =>
      if upload.workspaceId = 1 ∧ upload.status.live = true then
        upload.reservedBytes
      else 0) ≤ 50 := by
  have left : (run .empty tangled).storage.get? 1 =
      some { baseQuotaBytes := 1000, usedBytes := 0, reservedBytes := 50 } := by
    decide
  exact (counters_cover tangled left).2

/-- A new file's upload is begun, and aborted with no other on its node. -/
def abandoned : List Op :=
  tangling.take 4 ++ [.abortUpload 1 401 false 2]

/-- Its reservation is counted no longer. -/
theorem counters_exact_abandoned :
    (0 : Int) = (run .empty abandoned).uploads.total fun _ upload =>
      if upload.workspaceId = 1 ∧ upload.status.live = true then
        upload.reservedBytes
      else 0 := by
  have spares : ∀ db (op : Op), (∀ row, ¬ Drops db row op) →
      (∀ cutoff picked, op ≠ .deleteExpiredTombstones cutoff picked) →
      Spares db op :=
    fun db op drops other => ⟨fun row dropped => absurd dropped (drops row),
      fun cutoff picked same => absurd same (other cutoff picked)⟩
  have each : Each Spares .empty abandoned := by
    refine ⟨?_, ?_, ?_, ?_, ⟨?_, fun _ _ => nofun⟩, trivial⟩
    · exact spares _ _ (fun _ drops => drops) fun _ _ => nofun
    · exact spares _ _ (fun _ drops => drops) fun _ _ => nofun
    · exact spares _ _ (fun _ drops => drops) fun _ _ => nofun
    · exact spares _ _ (fun _ drops => drops) fun _ _ => nofun
    · rintro row ⟨_, there, _⟩ id version found _ other
      have begun : ((run .empty (tangling.take 4)).uploads.get? 401).map
          Upload.versionId = some 201 := by
        decide
      have alone : (run .empty (tangling.take 4)).versions.entries.map
          Prod.fst = [201] := by
        decide
      have isRow : (run .empty (tangling.take 4)).uploads.get? 401 =
          some row := (getUpload_eq_some.mp there).1
      rw [isRow] at begun
      have member : id ∈ (run .empty (tangling.take 4)).versions.entries.map
          Prod.fst :=
        mem_map_of_mem (mem_entries.mpr found)
      rw [alone, mem_singleton] at member
      exact absurd (member.trans (Option.some.inj begun).symm) other
  have found : (run .empty abandoned).storage.get? 1 =
      some { baseQuotaBytes := 1000, usedBytes := 0, reservedBytes := 0 } := by
    decide
  exact (counters_exact abandoned each found).2.1

end Tangled

end Drive

end HushOS
