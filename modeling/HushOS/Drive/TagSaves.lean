import HushOS.Drive.TagDocuments
import HushOS.Worker.Vault
import Mathlib.Logic.Relation

namespace HushOS

open Toolkit List OrderedMap

namespace Tags

/-!
# Tag lists saved by several devices

A device saves the tag list against the version it last saw.  A save that finds
another version reads what was saved, merges, and tries again, three times at
most.  Whatever devices save and whenever they fail, an accepted write has every
membership that was added before it, until a write takes it out.
-/

open Script (Text Value)
open Worker (DRIVE_ENVELOPE_SUITE)

def TAGS_DOCUMENT : String := "tags"

/-- An envelope, and the document sealed in it. -/
structure Envelope where
  bytes : Nat
  document : Value

/-- A row of the workspace's documents, of one kind. -/
structure DocumentRow where
  version : Nat
  envelope : Envelope
  envelopeSuite : Nat

/-- The documents of a workspace by their kinds, each kind a row. -/
abbrev Documents := OrderedMap String DocumentRow

/-- The most kinds a workspace may hold, and the most bytes between them. -/
structure DocumentLimits where
  kinds : Nat
  bytes : Nat

/-- A write of a document, with the version the client saw, 0 for none. -/
structure DocumentInput where
  kind : String
  version : Nat
  envelope : Envelope
  limits : DocumentLimits

/-- What a write that fits none is told. -/
inductive DocumentLimit where
  | kinds
  | bytes
  deriving DecidableEq, Repr

/-- What a write is answered. -/
inductive PutAnswer where
  | ok (document : DocumentRow)
  | limit (limit : DocumentLimit)
  | stale (document : Option DocumentRow)

/-- What a write is refused with before it is looked at. -/
inductive PutRefusal where
  | notFound
  | accessEnded
  deriving DecidableEq, Repr

/-- The limit a write passes, if it is of the version there is. -/
def limitOf (input : DocumentInput) (held : Documents) : Option DocumentLimit :=
  let mine := held.get? input.kind
  if (mine.map DocumentRow.version).getD 0 = input.version then
    let others := ((held.erase input.kind).values.map fun row => row.envelope.bytes).sum
    if mine.isNone ∧ input.limits.kinds ≤ held.size then
      some .kinds
    else if input.limits.bytes < others + input.envelope.bytes then
      some .bytes
    else
      none
  else
    none

/-- The row a write stores: a new one where the client saw none and there is
none, the next version where the client saw the one there is. -/
def storedRow (input : DocumentInput) (held : Documents) : Option DocumentRow :=
  match held.get? input.kind with
  | none =>
    if input.version = 0 then
      -- The suite is the column's own.
      some ⟨1, input.envelope, 1⟩
    else
      none
  | some row =>
    if input.version ≠ 0 ∧ row.version = input.version then
      some { row with version := input.version + 1, envelope := input.envelope }
    else
      none

/-- A write of a document, where the workspace is there and its writer may write. -/
def putWorkspaceDocument
    (found writes : Bool)
    (input : DocumentInput)
    (held : Documents) :
    Except PutRefusal (PutAnswer × Documents) := do
  refuseIf (found = false) .notFound
  refuseIf (writes = false) .accessEnded
  match limitOf input held with
  | some limit => .ok (.limit limit, held)
  | none =>
    match storedRow input held with
    | some row => .ok (.ok row, held.set input.kind row)
    | none => .ok (.stale (held.get? input.kind), held)

/-- The tag list as a device has it: what it shows, what it last saw the server
hold, and the version of that. -/
structure Copy where
  value : Registry
  base : Registry
  version : Nat

/-- The tag list, read from the server. -/
def readRegistry (held : Documents) : Except TagError Copy :=
  match held.get? TAGS_DOCUMENT with
  | none => .ok ⟨emptyRegistry, emptyRegistry, 0⟩
  | some document => do
      refuseIf (document.envelopeSuite ≠ DRIVE_ENVELOPE_SUITE)
        ⟨"Your tags were saved by a newer version of HushOS. Update to see them."⟩
      let value ← parseRegistry document.envelope.document
      .ok ⟨value, value, document.version⟩

/-- A save on its way: what it is an edit of and the version it began at, what it
tries to write, and the tries before this one. -/
structure Save where
  edit : Edit Text (OrderedMap Text Value) Value
  begun : Nat
  attempt : Copy
  tries : Nat

/-- A save of a registry, from a copy. -/
def Save.start (next : Registry) (current : Copy) : Save where
  edit := ⟨current.base, next, false⟩
  begun := current.version
  attempt := ⟨next, current.base, current.version⟩
  tries := 0

/-- A save merged with what another device saved. -/
def Save.retry (save : Save) (theirs : Copy) : Save where
  edit := save.edit.merged save.attempt.base save.attempt.value theirs.value
  begun := save.begun
  attempt := ⟨mergeRegistries save.attempt.base save.attempt.value theirs.value,
    theirs.value, theirs.version⟩
  tries := save.tries + 1

/-- What a save sends. -/
def Save.input (save : Save) (bytes : Nat) (limits : DocumentLimits) : DocumentInput where
  kind := TAGS_DOCUMENT
  version := save.attempt.version
  envelope := ⟨bytes, serialiseRegistry save.attempt.value⟩
  limits := limits

/-- Where a call is: it reads the list before it saves, or is about to write, or
was told its version is stale, or is about to keep what it read or wrote. -/
inductive Phase where
  | opening (next : Registry)
  | saving (save : Save)
  | stale (save : Save)
  | settling (copy : Copy)

/-- A write the server accepted, and the save it was of. -/
structure Accepted where
  save : Save
  document : Value

/-- What the server holds, what each device has, the calls on their way and the
writes that were accepted. -/
structure State (δ ι : Type) where
  held : Documents
  registries : δ → Option Copy
  calls : ι → Option (δ × Phase)
  accepted : List Accepted

variable {δ ι : Type} [DecidableEq δ] [DecidableEq ι]

/-- A state with a call put where it is. -/
def State.setCall
    (state : State δ ι)
    (call : ι)
    (phase : Option (δ × Phase)) :
    State δ ι :=
  { state with calls := Function.update state.calls call phase }

/-- A state after a save's write was answered. -/
def State.answered
    (state : State δ ι)
    (call : ι)
    (device : δ)
    (save : Save)
    (held : Documents) :
    PutAnswer → State δ ι
  | .ok document =>
    { state with
      held := held
      calls := Function.update state.calls call
        (some (device, .settling
          ⟨save.attempt.value, save.attempt.value, document.version⟩))
      accepted := state.accepted ++ [⟨save, serialiseRegistry save.attempt.value⟩] }
  | .limit _ => { state with held := held }.setCall call none
  | .stale _ => { state with held := held }.setCall call (some (device, .stale save))

/-- The ids of what a document lists and this app does not read. -/
abbrev UnreadIds := Text → Prop

/-- One step of devices and the server. -/
inductive Step (unread : UnreadIds) : State δ ι → State δ ι → Prop
  /-- A device reads the list, as `tags` does. -/
  | read {state : State δ ι} {call : ι} {device : δ} {copy : Copy}
      (free : state.calls call = none)
      (isRead : readRegistry state.held = .ok copy) :
      Step unread state (state.setCall call (some (device, .settling copy)))
  /-- A save begins from what its device has. -/
  | begin {state : State δ ι} {call : ι} {device : δ} {next : Registry} {copy : Copy}
      (free : state.calls call = none)
      (current : state.registries device = some copy)
      (sealable : Sealable unread next) :
      Step unread state
        (state.setCall call (some (device, .saving (Save.start next copy))))
  /-- A save begins on a device that has read no list. -/
  | beginUnread {state : State δ ι} {call : ι} {device : δ} {next : Registry}
      (free : state.calls call = none)
      (none_ : state.registries device = none)
      (sealable : Sealable unread next) :
      Step unread state (state.setCall call (some (device, .opening next)))
  /-- Such a save has read the list. -/
  | opened {state : State δ ι} {call : ι} {device : δ} {next : Registry} {copy : Copy}
      (opening : state.calls call = some (device, .opening next))
      (isRead : readRegistry state.held = .ok copy) :
      Step unread state
        (state.setCall call (some (device, .saving (Save.start next copy))))
  /-- A save's write reaches the server. -/
  | put {state : State δ ι} {call : ι} {device : δ} {save : Save}
      {found writes : Bool} {bytes : Nat} {limits : DocumentLimits}
      {answer : PutAnswer} {held : Documents}
      (saving : state.calls call = some (device, .saving save))
      (answered : putWorkspaceDocument found writes (save.input bytes limits) state.held =
        .ok (answer, held)) :
      Step unread state (state.answered call device save held answer)
  /-- A stale save reads what was saved and tries again, three times in all. -/
  | retry {state : State δ ι} {call : ι} {device : δ} {save : Save} {theirs : Copy}
      (stale : state.calls call = some (device, .stale save))
      (isRead : readRegistry state.held = .ok theirs) :
      Step unread state
        (state.setCall call
          (if save.tries + 1 < 3 then some (device, .saving (save.retry theirs)) else none))
  /-- A call keeps what it read or wrote. -/
  | settle {state : State δ ι} {call : ι} {device : δ} {copy : Copy}
      (settling : state.calls call = some (device, .settling copy)) :
      Step unread state
        ({ state with
          registries := Function.update state.registries device (some copy) }.setCall
            call none)
  /-- A call fails wherever it is. -/
  | fail {state : State δ ι} {call : ι} :
      Step unread state (state.setCall call none)
  /-- A document of another kind is written. -/
  | other {state : State δ ι} {found writes : Bool} {input : DocumentInput}
      {answer : PutAnswer} {held : Documents}
      (apart : input.kind ≠ TAGS_DOCUMENT)
      (answered : putWorkspaceDocument found writes input state.held = .ok (answer, held)) :
      Step unread state { state with held := held }

/-- What a document reads as, no tags where it does not read. -/
def readOf (document : Value) : Registry :=
  match parseRegistry document with
  | .ok registry => registry
  | .error _ => emptyRegistry

/-- What the documents a run starts with read as. -/
def startOf (start : Documents) : Registry :=
  match readRegistry start with
  | .ok copy => copy.value
  | .error _ => emptyRegistry

/-- The version of the tag list a run starts with. -/
def versionOf (held : Documents) : Nat :=
  ((held.get? TAGS_DOCUMENT).map DocumentRow.version).getD 0

/-- What a run's documents list and this app does not read. -/
def unreadOf (start : Documents) : UnreadIds :=
  fun id => (startOf start).kept.items.get? id ≠ none

/-- The list after some accepted writes, as it reads. -/
def docAt (start : Documents) (accepted : List Accepted) : Nat → Registry
  | 0 => startOf start
  | write + 1 =>
    match accepted[write]? with
    | some made => readOf made.document
    | none => emptyRegistry

/-- The history of a run's accepted writes. -/
def historyOf
    (start : Documents)
    (accepted : List Accepted) :
    Edit.History Text (OrderedMap Text Value) Value where
  count := accepted.length
  docAt := docAt start accepted
  edit write :=
    match accepted[write]? with
    | some made => made.save.edit
    | none => ⟨emptyRegistry, emptyRegistry, false⟩
  begun write :=
    match accepted[write]? with
    | some made => made.save.begun - versionOf start
    | none => 0

/-- A workspace's devices before they read its list. -/
def State.initial (start : Documents) : State δ ι where
  held := start
  registries _ := none
  calls _ := none
  accepted := []

/-- A state a run can reach from some documents. -/
def Reaches (start : Documents) : State δ ι → Prop :=
  Relation.ReflTransGen (Step (unreadOf start)) (State.initial start)

variable {held : Documents}

theorem put_cases
    {found writes : Bool}
    {input : DocumentInput}
    {held' : Documents}
    {answer : PutAnswer}
    (answered : putWorkspaceDocument found writes input held = .ok (answer, held')) :
    (∃ row, answer = .ok row ∧ storedRow input held = some row ∧
      held' = held.set input.kind row) ∨
      ((∀ row, answer ≠ .ok row) ∧ held' = held) := by
  simp only [putWorkspaceDocument, bind_eq_ok] at answered
  obtain ⟨_, _, _, _, answered⟩ := answered
  split at answered
  · cases answered
    exact .inr ⟨fun _ same => (by cases same), rfl⟩
  · split at answered
    · next row stored =>
        cases answered
        exact .inl ⟨row, rfl, stored, rfl⟩
    · cases answered
      exact .inr ⟨fun _ same => (by cases same), rfl⟩

theorem storedRow_some
    {input : DocumentInput}
    {row : DocumentRow}
    (stored : storedRow input held = some row) :
    ((held.get? input.kind).map DocumentRow.version).getD 0 = input.version ∧
      row.version = input.version + 1 ∧ row.envelope = input.envelope := by
  rw [storedRow] at stored
  split at stored
  · next none_ =>
      split at stored
      · next new =>
          cases stored
          rw [none_, new]
          exact ⟨rfl, rfl, rfl⟩
      · cases stored
  · next old isOld =>
      split at stored
      · next same =>
          cases stored
          rw [isOld]
          exact ⟨same.2, rfl, rfl⟩
      · cases stored

variable {copy : Copy}

theorem readRegistry_ok
    (isRead : readRegistry held = .ok copy) :
    copy.base = copy.value ∧ copy.version = versionOf held ∧
      ((held.get? TAGS_DOCUMENT = none ∧ copy.value = emptyRegistry) ∨
        ∃ row, held.get? TAGS_DOCUMENT = some row ∧
          parseRegistry row.envelope.document = .ok copy.value) := by
  rw [readRegistry] at isRead
  rw [versionOf]
  split at isRead
  · next none_ =>
      cases isRead
      rw [none_]
      exact ⟨rfl, rfl, .inl ⟨rfl, rfl⟩⟩
  · next row isRow =>
      simp only [bind_eq_ok] at isRead
      obtain ⟨_, _, value, parsed, made⟩ := isRead
      cases made
      rw [isRow]
      exact ⟨rfl, rfl, .inr ⟨row, rfl, parsed⟩⟩

theorem sealable_of_read
    (isRead : readRegistry held = .ok copy) :
    Sealable (fun id => copy.value.kept.items.get? id ≠ none) copy.value := by
  obtain ⟨_, _, ⟨_, none_⟩ | ⟨row, _, parsed⟩⟩ := readRegistry_ok isRead
  · rw [none_]
    exact sealable_empty _
  · exact sealable_of_parse parsed

/-- A copy of the list as it was after some accepted write. -/
structure Known (start : Documents) (accepted : List Accepted) (copy : Copy) (count : Nat) :
    Prop where
  within : count ≤ accepted.length
  version : copy.version = versionOf start + count
  base : Alike copy.base (docAt start accepted count)

/-- A save that keeps what there was when its attempt read the list. -/
structure Carrying
    (start : Documents)
    (accepted : List Accepted)
    (save : Save)
    (begun count : Nat) : Prop where
  since : begun ≤ count
  begins : save.begun = versionOf start + begun
  origin : Alike save.edit.origin (docAt start accepted begun)
  known : Known start accepted save.attempt count
  keeps : save.edit.Keeps save.attempt.base save.attempt.value
  adds : save.edit.Adds (docAt start accepted) begun count save.attempt.value
  sealable : Sealable (unreadOf start) save.attempt.value

/-- What a call may be doing. -/
def Phase.Sound (start : Documents) (accepted : List Accepted) : Phase → Prop
  | .opening next => Sealable (unreadOf start) next
  | .saving save => ∃ begun count, Carrying start accepted save begun count
  | .stale save => ∃ begun count, Carrying start accepted save begun count
  | .settling copy => ∃ count, Known start accepted copy count

/-- What every state of a run keeps. -/
structure State.Sound (start : Documents) (state : State δ ι) : Prop where
  version : versionOf state.held = versionOf start + state.accepted.length
  reads : ∀ copy, readRegistry state.held = .ok copy →
    copy.value = docAt start state.accepted state.accepted.length ∧
      Sealable (unreadOf start) copy.value
  registries : ∀ device copy, state.registries device = some copy →
    ∃ count, Known start state.accepted copy count
  calls : ∀ call device phase, state.calls call = some (device, phase) →
    phase.Sound start state.accepted
  history : (historyOf start state.accepted).Sound

omit [DecidableEq δ] [DecidableEq ι] in
theorem sound_initial (start : Documents) :
    (State.initial start : State δ ι).Sound start where
  version := rfl
  reads copy isRead := by
    have same : startOf start = copy.value := by
      have found : readRegistry start = .ok copy := isRead
      rw [startOf, found]
    refine ⟨same.symm, ?_⟩
    have unread : unreadOf start = fun id => copy.value.kept.items.get? id ≠ none := by
      funext id
      rw [unreadOf, same]
    rw [unread]
    exact sealable_of_read isRead
  registries _ _ some_ := by cases some_
  calls _ _ _ some_ := by cases some_
  history := ⟨nofun, nofun, nofun, nofun⟩

variable {start : Documents} {count : Nat}

theorem docAt_append
    {accepted : List Accepted}
    (made : Accepted)
    (within : count ≤ accepted.length) :
    docAt start (accepted ++ [made]) count = docAt start accepted count := by
  cases count with
  | zero => rfl
  | succ write => rw [docAt, docAt, getElem?_append_left within]

theorem docAt_last
    (start : Documents)
    (accepted : List Accepted)
    (made : Accepted) :
    docAt start (accepted ++ [made]) (accepted.length + 1) = readOf made.document := by
  rw [docAt, getElem?_concat_length]

theorem Known.append
    {start : Documents}
    {accepted : List Accepted}
    {copy : Copy}
    {count : Nat}
    (known : Known start accepted copy count)
    (made : Accepted) :
    Known start (accepted ++ [made]) copy count where
  within := by
    rw [length_append]
    exact Nat.le_add_right_of_le known.within
  version := known.version
  base := by
    rw [docAt_append made known.within]
    exact known.base

theorem Carrying.append
    {start : Documents}
    {accepted : List Accepted}
    {save : Save}
    {begun count : Nat}
    (carrying : Carrying start accepted save begun count)
    (made : Accepted) :
    Carrying start (accepted ++ [made]) save begun count where
  since := carrying.since
  begins := carrying.begins
  origin := by
    rw [docAt_append made (carrying.since.trans carrying.known.within)]
    exact carrying.origin
  known := carrying.known.append made
  keeps := carrying.keeps
  adds := carrying.adds.agree fun _ before =>
    docAt_append made (before.trans carrying.known.within)
  sealable := carrying.sealable

theorem Phase.Sound.append
    {start : Documents}
    {accepted : List Accepted}
    {phase : Phase}
    (sound : phase.Sound start accepted)
    (made : Accepted) :
    phase.Sound start (accepted ++ [made]) := by
  cases phase with
  | opening next => exact sound
  | saving save =>
    obtain ⟨begun, count, carrying⟩ := sound
    exact ⟨begun, count, carrying.append made⟩
  | stale save =>
    obtain ⟨begun, count, carrying⟩ := sound
    exact ⟨begun, count, carrying.append made⟩
  | settling copy =>
    obtain ⟨count, known⟩ := sound
    exact ⟨count, known.append made⟩

theorem readOf_serialise
    {unread : UnreadIds}
    {registry : Registry}
    (sealable : Sealable unread registry) :
    Alike (readOf (serialiseRegistry registry)) registry ∧
      Sealable unread (readOf (serialiseRegistry registry)) ∧
      parseRegistry (serialiseRegistry registry) =
        .ok (readOf (serialiseRegistry registry)) := by
  obtain ⟨read, parsed, alike, again⟩ := parse_sealable sealable
  have same : readOf (serialiseRegistry registry) = read := by
    rw [readOf, parsed]
  rw [same]
  exact ⟨alike, again, parsed⟩

/-- An accepted save continues a sound history. -/
theorem history_append
    {accepted : List Accepted}
    {save : Save}
    {begun : Nat}
    (sound : (historyOf start accepted).Sound)
    (carrying : Carrying start accepted save begun accepted.length) :
    (historyOf start
      (accepted ++ [⟨save, serialiseRegistry save.attempt.value⟩])).Sound := by
  have earlier : ∀ write < accepted.length,
      (accepted ++ [(⟨save, serialiseRegistry save.attempt.value⟩ : Accepted)])[write]? =
        accepted[write]? :=
    fun write before => getElem?_append_left before
  have last : (accepted ++ [(⟨save, serialiseRegistry save.attempt.value⟩ : Accepted)])[
      accepted.length]? = some ⟨save, serialiseRegistry save.attempt.value⟩ :=
    getElem?_concat_length
  have isBegun : save.begun - versionOf start = begun := by
    rw [carrying.begins, Nat.add_sub_cancel_left]
  have alike := (readOf_serialise carrying.sealable).1.symm
  -- Each fact is asked of an earlier write, or of the last.
  have cases_ : ∀ write < (historyOf start
      (accepted ++ [⟨save, serialiseRegistry save.attempt.value⟩])).count,
      write < accepted.length ∨ write = accepted.length := by
    intro write within
    rw [historyOf, length_append, length_singleton] at within
    exact Nat.lt_succ_iff_lt_or_eq.mp within
  constructor
  · intro write within
    rcases cases_ write within with before | rfl
    · have was := sound.begun write before
      simp only [historyOf, earlier write before] at was ⊢
      exact was
    · simp only [historyOf, last, isBegun]
      exact carrying.since
  · intro write within
    rcases cases_ write within with before | rfl
    · have was := sound.origin write before
      have since := (sound.begun write before).trans (Nat.le_of_lt before)
      simp only [historyOf, earlier write before] at was since ⊢
      rw [docAt_append _ since]
      exact was
    · simp only [historyOf, last, isBegun]
      rw [docAt_append _ carrying.since]
      exact carrying.origin
  · intro write within
    rcases cases_ write within with before | rfl
    · have was := sound.keeps write before
      simp only [historyOf, earlier write before] at was ⊢
      rw [docAt_append _ (Nat.le_of_lt before), docAt_append _ before]
      exact was
    · simp only [historyOf, last]
      rw [docAt_append _ (Nat.le_refl _), docAt_last]
      exact carrying.keeps.congr carrying.known.base alike
  · intro write within
    rcases cases_ write within with before | rfl
    · have was := sound.adds write before
      simp only [historyOf, earlier write before] at was ⊢
      rw [docAt_append _ before]
      exact was.agree fun other until_ =>
        docAt_append _ (until_.trans (Nat.le_of_lt before))
    · simp only [historyOf, last, isBegun]
      rw [docAt_last]
      exact (carrying.adds.congr alike).agree fun other until_ => docAt_append _ until_

omit [DecidableEq δ] [DecidableEq ι] in
theorem State.Sound.known_read
    {state : State δ ι}
    (sound : state.Sound start)
    (isRead : readRegistry state.held = .ok copy) :
    Known start state.accepted copy state.accepted.length where
  within := Nat.le_refl _
  version := by
    obtain ⟨_, version, _⟩ := readRegistry_ok isRead
    rw [version, sound.version]
  base := by
    obtain ⟨same, _, _⟩ := readRegistry_ok isRead
    rw [same, (sound.reads copy isRead).1]
    exact Alike.refl _

theorem carrying_start
    {accepted : List Accepted}
    {next : Registry}
    (known : Known start accepted copy count)
    (sealable : Sealable (unreadOf start) next) :
    Carrying start accepted (Save.start next copy) count count where
  since := Nat.le_refl _
  begins := known.version
  origin := known.base
  known := ⟨known.within, known.version, known.base⟩
  keeps := Edit.keeps_origin _
  adds := Edit.adds_origin _ _ _
  sealable := sealable

omit [DecidableEq δ] [DecidableEq ι] in
/-- A retry after a merge still carries the call's edit. -/
theorem carrying_retry
    {state : State δ ι}
    (sound : state.Sound start)
    {save : Save}
    {begun : Nat}
    (carrying : Carrying start state.accepted save begun count)
    {theirs : Copy}
    (isRead : readRegistry state.held = .ok theirs) :
    Carrying start state.accepted (save.retry theirs) begun state.accepted.length := by
  have known := sound.known_read isRead
  obtain ⟨same, sealable⟩ := sound.reads theirs isRead
  have isTheirs : Alike theirs.value (docAt start state.accepted state.accepted.length) := by
    rw [same]
    exact Alike.refl _
  constructor
  · exact carrying.since.trans carrying.known.within
  · exact carrying.begins
  · exact carrying.origin
  · exact ⟨Nat.le_refl _, known.version, isTheirs⟩
  · exact carrying.keeps.merge sealable.written.valid
  · exact carrying.adds.merge carrying.sealable.written.valid carrying.since
      carrying.known.within carrying.known.base isTheirs
  · exact sealable_mergeRegistries carrying.sealable sealable

omit [DecidableEq δ] in
theorem State.Sound.setCall
    {start : Documents}
    {state : State δ ι}
    (sound : state.Sound start)
    (call : ι)
    {phase : Option (δ × Phase)}
    (soundly : ∀ device next, phase = some (device, next) →
      next.Sound start state.accepted) :
    (state.setCall call phase).Sound start where
  version := sound.version
  reads := sound.reads
  registries := sound.registries
  calls other device next isNext := by
    simp only [State.setCall, Function.update_apply] at isNext
    split at isNext
    · exact soundly device next isNext
    · exact sound.calls other device next isNext
  history := sound.history

omit [DecidableEq δ] in
theorem State.Sound.setPhase
    {state : State δ ι}
    (sound : state.Sound start)
    (call : ι)
    (device : δ)
    {phase : Phase}
    (soundly : phase.Sound start state.accepted) :
    (state.setCall call (some (device, phase))).Sound start :=
  sound.setCall call fun _ _ same => by
    cases same
    exact soundly

omit [DecidableEq δ] in
theorem State.Sound.clear
    {state : State δ ι}
    (sound : state.Sound start)
    (call : ι) :
    (state.setCall call none).Sound start :=
  sound.setCall call fun _ _ same => by cases same

omit [DecidableEq ι] in
theorem State.Sound.setCopy
    {state : State δ ι}
    (sound : state.Sound start)
    (device : δ)
    (known : Known start state.accepted copy count) :
    ({ state with
      registries := Function.update state.registries device (some copy) } :
        State δ ι).Sound start where
  version := sound.version
  reads := sound.reads
  registries other seen has := by
    simp only [Function.update_apply] at has
    split at has
    · cases has
      exact ⟨count, known⟩
    · exact sound.registries other seen has
  calls := sound.calls
  history := sound.history

omit [DecidableEq δ] [DecidableEq ι] in
theorem State.Sound.setHeld
    {state : State δ ι}
    (sound : state.Sound start)
    (same : held.get? TAGS_DOCUMENT = state.held.get? TAGS_DOCUMENT) :
    ({ state with held := held } : State δ ι).Sound start where
  version := by
    rw [versionOf, same]
    exact sound.version
  reads copy isRead := by
    rw [readRegistry, same] at isRead
    exact sound.reads copy isRead
  registries := sound.registries
  calls := sound.calls
  history := sound.history

omit [DecidableEq δ] in
/-- Accepting a save keeps the state sound. -/
theorem State.Sound.accepted
    {start : Documents}
    {state : State δ ι}
    (sound : state.Sound start)
    {call : ι}
    {device : δ}
    {save : Save}
    {bytes : Nat}
    {limits : DocumentLimits}
    {row : DocumentRow}
    (saving : state.calls call = some (device, .saving save))
    (stored : storedRow (save.input bytes limits) state.held = some row) :
    (state.answered call device save (state.held.set TAGS_DOCUMENT row)
      (.ok row)).Sound start := by
  obtain ⟨begun, count, carrying⟩ := sound.calls call device _ saving
  obtain ⟨wasVersion, isVersion, isEnvelope⟩ := storedRow_some stored
  -- The version written against is the one there is, so the attempt read the last write.
  have current : count = state.accepted.length := by
    have attempt : versionOf state.held = save.attempt.version := wasVersion
    rw [sound.version, carrying.known.version] at attempt
    omega
  subst current
  have newVersion : row.version = versionOf start + (state.accepted.length + 1) := by
    rw [isVersion, Save.input, carrying.known.version, Nat.add_assoc]
  obtain ⟨alike, again, parsed⟩ := readOf_serialise carrying.sealable
  have found : (state.held.set TAGS_DOCUMENT row).get? TAGS_DOCUMENT = some row := by
    rw [get?_set, if_pos rfl]
  have length : (state.accepted ++
      [(⟨save, serialiseRegistry save.attempt.value⟩ : Accepted)]).length =
      state.accepted.length + 1 := by
    rw [length_append, length_singleton]
  constructor
  · rw [State.answered, length, versionOf, found]
    exact newVersion
  · intro copy isRead
    obtain ⟨_, _, ⟨none_, _⟩ | ⟨other, isOther, reads⟩⟩ := readRegistry_ok isRead
    · rw [State.answered, found] at none_
      cases none_
    · rw [State.answered, found, Option.some_inj] at isOther
      rw [← isOther, isEnvelope, Save.input, parsed, Except.ok.injEq] at reads
      rw [State.answered, length, docAt_last, ← reads]
      exact ⟨rfl, again⟩
  · intro device copy has
    obtain ⟨count, known⟩ := sound.registries device copy has
    exact ⟨count, known.append _⟩
  · intro other device phase isPhase
    simp only [State.answered, Function.update_apply] at isPhase
    split at isPhase
    · cases isPhase
      refine ⟨state.accepted.length + 1, ?_, newVersion, ?_⟩
      · rw [State.answered, length]
      · rw [State.answered, docAt_last]
        exact alike.symm
    · exact (sound.calls other device phase isPhase).append _
  · exact history_append sound.history carrying

/-- Every step keeps the state sound. -/
theorem State.Sound.step
    {start : Documents}
    {state next : State δ ι}
    (sound : state.Sound start)
    (step : Step (unreadOf start) state next) :
    next.Sound start := by
  cases step with
  | read free isRead => exact sound.setPhase _ _ ⟨_, sound.known_read isRead⟩
  | begin free current sealable =>
    obtain ⟨count, known⟩ := sound.registries _ _ current
    exact sound.setPhase _ _ ⟨count, count, carrying_start known sealable⟩
  | beginUnread free none_ sealable => exact sound.setPhase _ _ sealable
  | opened opening isRead =>
    have sealable := sound.calls _ _ _ opening
    exact sound.setPhase _ _ ⟨_, _, carrying_start (sound.known_read isRead) sealable⟩
  | @put call device save found writes bytes limits answer held saving answered =>
    rcases put_cases answered with ⟨row, rfl, stored, rfl⟩ | ⟨refused, rfl⟩
    · exact sound.accepted saving stored
    · cases answer with
      | ok row => exact absurd rfl (refused row)
      | limit limit => exact sound.clear call
      | stale row =>
        have carrying : (Phase.stale save).Sound start state.accepted :=
          sound.calls call device (.saving save) saving
        exact sound.setPhase call device carrying
  | retry stale isRead =>
    obtain ⟨begun, count, carrying⟩ := sound.calls _ _ _ stale
    split
    · exact sound.setPhase _ _ ⟨begun, _, carrying_retry sound carrying isRead⟩
    · exact sound.clear _
  | settle settling =>
    obtain ⟨count, known⟩ := sound.calls _ _ _ settling
    exact (sound.setCopy _ known).clear _
  | fail => exact sound.clear _
  | @other found writes input answer held apart answered =>
    rcases put_cases answered with ⟨row, rfl, stored, rfl⟩ | ⟨_, rfl⟩
    · refine sound.setHeld ?_
      rw [get?_set, if_neg (Ne.symm apart)]
    · exact sound

theorem sound_of_reaches
    {state : State δ ι}
    (reaches : Reaches start state) :
    state.Sound start := by
  induction reaches with
  | refl => exact sound_initial start
  | tail _ step inductionHypothesis => exact inductionHypothesis.step step

/--
With one side unchanged a merge has the other's tags and memberships.  Unless we
took out one they changed, a tag stands by the rule of what each side did, and
the first two hundred that stand are merged, each with the items that theirs
gives it and we did not take off, and those we added.  In every run, each save
starts from the list as an accepted write left it, and a membership is in every
accepted write until one takes it out, by itself or with its tag, or the cap cuts
a merge of it; what a save added is there from its write on, unless a write since
it began took it out so.
-/
theorem merged_and_saved
    (δ ι : Type)
    [DecidableEq δ]
    [DecidableEq ι] :
    (∀ base ours : Registry, ours.Valid →
      (mergeRegistries base ours base).tags.map Tag.told = ours.tags.map Tag.told ∧
        ∀ tag item,
          (mergeRegistries base ours base).Carries tag item ↔ ours.Carries tag item) ∧
    (∀ base theirs : Registry, theirs.Valid →
      (mergeRegistries base base theirs).tags.Perm theirs.tags ∧
        ∀ tag item,
          (mergeRegistries base base theirs).Carries tag item ↔
            theirs.Carries tag item) ∧
    (∀ base ours theirs : Registry,
      (∀ id, ¬ (base.Has id ∧ ¬ ours.Has id ∧ ChangedBy base theirs id) →
        (id ∈ idsOf (standingTags base ours theirs) ↔ Survives base ours theirs id)) ∧
      (mergeRegistries base ours theirs).tags =
        (standingTags base ours theirs).take MAX_TAGS ∧
      ∀ tag item, (mergeRegistries base ours theirs).Has tag →
        ((mergeRegistries base ours theirs).Carries tag item ↔
          (theirs.Carries tag item ∧ ¬ (base.Carries tag item ∧ ¬ ours.Carries tag item)) ∨
            (ours.Carries tag item ∧ ¬ base.Carries tag item))) ∧
    (∀ (start : Documents) (state : State δ ι), Reaches start state →
      let history := historyOf start state.accepted
      (∀ copy, readRegistry state.held = .ok copy →
        copy.value = history.docAt history.count) ∧
      (∀ write < history.count,
        history.begun write ≤ write ∧
          Alike (history.edit write).origin (history.docAt (history.begun write))) ∧
      (∀ first last tag item, first ≤ last → last ≤ history.count →
        (history.docAt first).Carries tag item →
          (history.docAt last).Carries tag item ∨
            ∃ write, first ≤ write ∧ write < last ∧ history.TakenBy tag item write) ∧
      (∀ write last tag item, write < last → last ≤ history.count →
        (history.edit write).Added tag item →
          (history.docAt last).Carries tag item ∨
            ∃ other, history.begun write ≤ other ∧ other < last ∧
              history.TakenBy tag item other)) := by
  refine ⟨fun base ours valid => ?_, fun base theirs valid => ?_,
    fun base ours theirs => ⟨fun id apart => stands_iff_survives apart, rfl, ?_⟩,
    fun start state reaches => ?_⟩
  · exact ⟨told_merge_base valid, carries_merge_base valid⟩
  · exact ⟨perm_merge_unchanged valid, carries_merge_unchanged valid⟩
  · intro tag item has
    rw [carries_mergeRegistries, mem_mergedItems, and_iff_right has]
  · have sound := sound_of_reaches reaches
    refine ⟨fun copy isRead => (sound.reads copy isRead).1,
      fun write within => ⟨sound.history.begun write within,
        sound.history.origin write within⟩, ?_, ?_⟩
    · exact fun _ _ _ _ ordered within carries =>
        sound.history.carries_until ordered within carries
    · exact fun _ _ _ _ ordered within added =>
        sound.history.added_until ordered within added

def toyDigit (value : Nat) : UInt16 :=
  UInt16.ofNat (48 + value % 10)

def toyId (place : Nat) : Text :=
  [toyDigit (place / 100), toyDigit (place / 10), toyDigit place] ++
    Script.asciiText "00000-0000-4000-8000-000000000000"

def toyTag (place : Nat) : Tag Text (OrderedMap Text Value) :=
  ⟨toyId place, Script.asciiText "Tag", Script.asciiText "blue", .empty⟩

def toyRegistry (places : List Nat) : Registry :=
  ⟨places.map toyTag, .empty, ⟨.empty, .empty⟩⟩

theorem toyDigit_inj
    {first second : Nat}
    (same : toyDigit first = toyDigit second) :
    first % 10 = second % 10 := by
  have values := congrArg UInt16.toNat same
  simp only [toyDigit, UInt16.toNat_ofNat'] at values
  omega

theorem toyId_inj
    {first second : Nat}
    (firstSmall : first < 1000)
    (secondSmall : second < 1000)
    (same : toyId first = toyId second) :
    first = second := by
  simp only [toyId, cons_append, List.cons.injEq] at same
  obtain ⟨hundreds, tens, units, _⟩ := same
  have hundreds := toyDigit_inj hundreds
  have tens := toyDigit_inj tens
  have units := toyDigit_inj units
  omega

theorem has_toyRegistry
    {places : List Nat}
    {id : Text} :
    (toyRegistry places).Has id ↔ ∃ place ∈ places, toyId place = id := by
  rw [TagRegistry.Has, toyRegistry, idsOf, map_map, mem_map]
  exact Iff.rfl

theorem valid_toyRegistry
    {places : List Nat}
    (distinct : places.Nodup)
    (small : ∀ place ∈ places, place < 1000)
    (within : places.length ≤ MAX_TAGS) :
    (toyRegistry places).Valid where
  distinct := by
    rw [toyRegistry, idsOf, map_map]
    exact distinct.map_on fun first isFirst second isSecond same =>
      toyId_inj (small first isFirst) (small second isSecond) same
  within := by
    rw [toyRegistry, length_map]
    exact within
  listed := nofun

/-- Merged with two hundred tags of ours, a tag they added is dropped. -/
theorem merge_drops_at_cap :
    (toyRegistry []).Valid ∧ (toyRegistry (List.range 200)).Valid ∧
      (toyRegistry [200]).Valid ∧
      Survives (toyRegistry []) (toyRegistry (List.range 200)) (toyRegistry [200])
        (toyId 200) ∧
      ¬ (mergeRegistries (toyRegistry []) (toyRegistry (List.range 200))
        (toyRegistry [200])).Has (toyId 200) := by
  have none_ : ∀ id, ¬ (toyRegistry []).Has id := by
    intro id has
    obtain ⟨place, listed, _⟩ := has_toyRegistry.mp has
    cases listed
  have valid : (toyRegistry (List.range 200)).Valid :=
    valid_toyRegistry nodup_range
      (fun place listed => (mem_range.mp listed).trans (by decide))
      (by rw [length_range]; decide)
  refine ⟨valid_toyRegistry nodup_nil nofun (by decide), valid,
    valid_toyRegistry (nodup_singleton _) (by decide) (by decide), ?_, ?_⟩
  · exact .inr (.inl ⟨none_ _, .inr (has_toyRegistry.mpr
      ⟨200, mem_singleton_self _, rfl⟩)⟩)
  · intro has
    have mine := has_of_full valid.distinct
      (fun id isOurs => (stands_of_ours isOurs).mpr (.inr (.inl (none_ id))))
      (by rw [toyRegistry, length_map, length_range]; decide) has
    obtain ⟨place, listed, same⟩ := has_toyRegistry.mp mine
    have small := mem_range.mp listed
    have isLast := toyId_inj (small.trans (by decide)) (by decide) same
    omega

/-- A list of one tag, on one item. -/
def toyTagged (place item : Nat) : Registry :=
  ⟨[toyTag place], OrderedMap.empty.set (toyId place) [toyId item],
    ⟨.empty, .empty⟩⟩

def toySave (place item : Nat) : Save :=
  Save.start (toyTagged place item) ⟨emptyRegistry, emptyRegistry, 0⟩

/-- The toy registry can be sealed. -/
theorem sealable_toyTagged
    {place item : Nat}
    (isTag : isUuid (toyId place) = true)
    (isItem : isUuid (toyId item) = true) :
    Sealable (unreadOf .empty) (toyTagged place item) where
  written := {
    tags := by
      intro tag member
      rw [mem_singleton.mp member]
      exact ⟨isTag, rfl⟩
    valid := ⟨nodup_singleton _, (by decide : 1 ≤ MAX_TAGS), by
      intro tag item carries
      rw [TagRegistry.Carries, TagRegistry.itemsOf, toyTagged, get?_set] at carries
      split at carries
      · next same =>
          rw [same]
          exact mem_singleton_self _
      · cases carries⟩
    keyed := by
      intro id some_
      rw [toyTagged, get?_set] at some_
      split at some_
      · next same =>
          rw [same]
          exact mem_singleton_self _
      · exact absurd rfl some_
    items := by
      intro tag item carries
      rw [TagRegistry.Carries, TagRegistry.itemsOf, toyTagged, get?_set] at carries
      split at carries
      · rw [mem_singleton.mp carries]
        exact isItem
      · cases carries
  }
  kept := fun _ some_ => absurd rfl some_
  apart := fun _ _ listed => listed rfl

/-- Two devices that read no list save one each; one of them merges. -/
theorem exists_merged :
    ∃ state : State Bool Bool, Reaches .empty state ∧
      state.accepted.map Accepted.save =
        [toySave 0 1,
          (toySave 2 3).retry ⟨toyTagged 0 1, toyTagged 0 1, 1⟩] := by
  have opening : Reaches .empty ((State.initial .empty : State Bool Bool).setCall true
      (some (true, .opening (toyTagged 0 1)))) :=
    .tail .refl (.beginUnread rfl rfl (sealable_toyTagged (by decide) (by decide)))
  have saving := Relation.ReflTransGen.tail opening
    (@Step.opened Bool Bool _ _ _ _ true true (toyTagged 0 1)
      ⟨emptyRegistry, emptyRegistry, 0⟩ rfl rfl)
  have otherOpening := Relation.ReflTransGen.tail saving
    (@Step.beginUnread Bool Bool _ _ _ _ false false (toyTagged 2 3) rfl rfl
      (sealable_toyTagged (by decide) (by decide)))
  have otherSaving := Relation.ReflTransGen.tail otherOpening
    (@Step.opened Bool Bool _ _ _ _ false false (toyTagged 2 3)
      ⟨emptyRegistry, emptyRegistry, 0⟩ rfl rfl)
  have saved := Relation.ReflTransGen.tail otherSaving
    (@Step.put Bool Bool _ _ _ _ true true (toySave 0 1) true true 100 ⟨8, 1000⟩ _ _ rfl rfl)
  have stale := Relation.ReflTransGen.tail saved
    (@Step.put Bool Bool _ _ _ _ false false (toySave 2 3) true true 100 ⟨8, 1000⟩ _ _
      rfl rfl)
  have merging := Relation.ReflTransGen.tail stale
    (@Step.retry Bool Bool _ _ _ _ false false (toySave 2 3)
      ⟨toyTagged 0 1, toyTagged 0 1, 1⟩ rfl rfl)
  have merged := Relation.ReflTransGen.tail merging
    (@Step.put Bool Bool _ _ _ _ false false
      ((toySave 2 3).retry ⟨toyTagged 0 1, toyTagged 0 1, 1⟩) true true 100
      ⟨8, 1000⟩ _ _ rfl rfl)
  exact ⟨_, merged, rfl⟩

/-- A tag one device saved is in the list the other merged, or it took it out. -/
theorem merged_and_saved_sample :
    ((mergeRegistries (toyRegistry []) (toyRegistry [7]) (toyRegistry [])).tags.map Tag.told =
      [toyTag 7].map Tag.told) ∧
    ∃ state : State Bool Bool, Reaches .empty state ∧
      state.accepted.map (fun made => made.save.tries) = [0, 1] ∧
      (((historyOf .empty state.accepted).docAt 2).Carries (toyId 2) (toyId 3) ∨
        ∃ other, (historyOf .empty state.accepted).begun 1 ≤ other ∧ other < 2 ∧
          (historyOf .empty state.accepted).TakenBy (toyId 2) (toyId 3) other) := by
  obtain ⟨state, reaches, saves⟩ := exists_merged
  have count := congrArg List.length saves
  rw [length_map] at count
  refine ⟨((merged_and_saved Bool Bool).1 (toyRegistry []) (toyRegistry [7])
      (valid_toyRegistry (nodup_singleton _) (by decide) (by decide))).1,
    state, reaches, ?_, ?_⟩
  · have tries := congrArg (List.map Save.tries) saves
    rwa [map_map] at tries
  · refine ((merged_and_saved Bool Bool).2.2.2 .empty state reaches).2.2.2 1 2
      (toyId 2) (toyId 3) (by decide) count.ge ?_
    have second := congrArg (fun saves => saves[1]?) saves
    rw [getElem?_map] at second
    obtain ⟨made, isSecond, isSave⟩ := Option.map_eq_some_iff.mp second
    rw [historyOf]
    simp only [isSecond, isSave]
    exact ⟨by decide, by decide⟩

end Tags

end HushOS
