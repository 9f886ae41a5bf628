import HushOS.Drive.Keeping

namespace HushOS

open Toolkit OrderedMap

namespace Drive

/-!
# Answers of a published version

A completion, an attaching or a copy that answers with a published version left
that version ready.
-/

section Withheld

/-- Whether an answer names what a write began or published. -/
def Answer.accepts : Answer → Bool
  | .begun _ => true
  | .published .. => true
  | _ => false

/-- A body that refuses with refusals alone. -/
def Withholds (body : Except Answer α) : Prop :=
  ∀ answer, body = .error answer → answer.accepts = false

variable {answer : Answer}

theorem Withholds.absurd
    {body : Except Answer α}
    (withholds : Withholds body)
    (refused : body = .error answer)
    (accepts : answer.accepts = true) :
    False := by
  rw [withholds answer refused] at accepts
  cases accepts

theorem Withholds.bind
    {first : Except Answer α}
    {next : α → Except Answer β}
    (before : Withholds first)
    (later : ∀ value, Withholds (next value)) :
    Withholds (first >>= next) := by
  intro given refused
  rcases bind_eq_error.mp refused with refused | ⟨value, _, refused⟩
  · exact before given refused
  · exact later value given refused

variable {db : Database}

end Withheld

section Publishing

variable {db : Database}

variable {workspaceId : Uuid} {row : Upload} {storedSize sourceSeq : Option Nat}
    {move : Option MoveRecord} {now : Nat} {answer : Answer}

variable {uploadId nodeId : Uuid} {writer displaced : Option Uuid}

variable {input : AttachInput}

end Publishing

section Beginning

variable {db : Database}

end Beginning

end Drive

end HushOS
