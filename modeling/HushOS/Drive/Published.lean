import HushOS.Drive.Completions

namespace HushOS

open Toolkit

namespace Drive

/-!
# Published content in runs

Once a write answered with a published version, the version is ready until a
write takes it, its node is there until it is purged, and no object is
forgotten: in every run whose steps spare what stands on a node they drop.
-/

section Runs

/-- The key of an object: the workspace its id was made for, and the id. -/
def keyMade (made : Uuid → Uuid) (id : Uuid) : ObjectKey :=
  ⟨made id, id⟩

/--
Whether a begin stores under the key of its workspace and its object's id, the
id made for that workspace, as `requireMadeFor` and `objectKey` have it.
-/
def MadeFor (made : Uuid → Uuid) : Op → Prop
  | .beginUpload input =>
    input.object.objectKey = ⟨input.workspaceId, input.object.id⟩ ∧
      made input.object.id = input.workspaceId
  | _ => True

variable {db : Database} {made : Uuid → Uuid} {ops : List Op}

/-- What a step keeps of objects, if it spares what stands. -/
structure Filed (made : Uuid → Uuid) (db : Database) : Prop where
  sound : Sound db
  keyed : Keyed (keyMade made) db
  kept : Kept db

theorem Filed.step
    {op : Op}
    (filed : Filed made db)
    (spares : Spares db op)
    (itsKey : MadeFor made op) :
    Filed made (step db op) := by
  have trail := step_trail filed.sound op
  refine
    { sound := filed.sound.trail trail
      keyed := trail.keyed ?_ filed.keyed
      kept := trail.kept filed.sound spares filed.kept }
  intro id key stored
  cases op with
  | beginUpload input =>
    obtain ⟨rfl, rfl⟩ : input.object.id = id ∧
        input.object.objectKey = key :=
      stored
    rw [itsKey.1, keyMade, itsKey.2]
  | _ => exact stored.elim

theorem each_append
    {meets : Database → Op → Prop}
    {first second : List Op} :
    Each meets db (first ++ second) ↔
      Each meets db first ∧ Each meets (run db first) second := by
  induction first generalizing db with
  | nil => simp [Each, run]
  | cons op rest inductionHypothesis =>
    rw [List.cons_append, Each, Each, inductionHypothesis, run_cons,
      and_assoc]

theorem both
    {first second : Database → Op → Prop}
    (one : Each first db ops)
    (other : Each second db ops) :
    Each (fun db op => first db op ∧ second db op) db ops := by
  induction ops generalizing db with
  | nil => trivial
  | cons op rest inductionHypothesis =>
    exact ⟨⟨one.1, other.1⟩, inductionHypothesis one.2 other.2⟩

end Runs

section Losing

/-- The second upload of a tangled file is completed. -/
def completingSecond : Op :=
  .finishCompleting 1 402 (some 50) none none 3

/-- A tangled file with its second upload completing. -/
def tangledCompleting : List Op :=
  tangling ++ [.startCompleting 1 402 none 2]

/-- A new file's upload, begun and completing. -/
def uploading : List Op :=
  [.openWorkspace 1 none 1000,
    .allocateKeyEpochs 1 10 none 0,
    .createRoot 1 7 100 1 1 true 0,
    .beginUpload (tangledUpload (.fresh 101 100 2 1) 201 301 100 401),
    .startCompleting 1 401 none 2]

/-- It is completed. -/
def completingFirst : Op :=
  .finishCompleting 1 401 (some 100) none none 3

end Losing

end Drive

end HushOS
