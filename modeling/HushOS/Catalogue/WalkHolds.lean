import HushOS.Toolkit.OrderedMap
import HushOS.Toolkit.Runs

namespace HushOS

open Toolkit List OrderedMap

namespace WalkHolds

/-!
# Folders held by one caller at a time

A caller takes the folders it names once nobody holds any of them, all at once,
and otherwise waits for one of those that hold them to let go, and looks again.
Between awaits the worker runs one caller alone, so that a look and what it takes
are one step.
-/

/-- A folder at a key epoch. -/
structure HeldFolder where
  id : String
  keyEpoch : Nat
  deriving DecidableEq, Repr

/-- A call of the worker. -/
inductive Call where
  | takeFolders (workspaceId : String) (folders : List HeldFolder)
  | holdFolder (workspaceId : String) (folder : HeldFolder)
  deriving DecidableEq, Repr

/-- The workspace a call is of. -/
def Call.workspaceId : Call → String
  | .takeFolders workspaceId _ => workspaceId
  | .holdFolder workspaceId _ => workspaceId

/-- The folders a call takes. -/
def Call.folders : Call → List HeldFolder
  | .takeFolders _ folders => folders
  | .holdFolder _ folder => [folder]

/-- The slot of a folder. -/
def slotOf (workspaceId : String) (folder : HeldFolder) : String :=
  workspaceId ++ "/" ++ folder.id ++ "@" ++ toString folder.keyEpoch

/-- The slots of a call, each once. -/
def Call.slots (call : Call) : List String :=
  (call.folders.map (slotOf call.workspaceId)).eraseDups

/-- Where a caller stands. -/
inductive Phase where
  /-- It waits for the first of some holders to let go. -/
  | waiting (busy : List Nat)
  | holding
  | released
  deriving DecidableEq, Repr

/-- A caller; its promise is its own, and is resolved once it has let go. -/
structure Caller where
  call : Call
  phase : Phase
  /-- Whether its body threw, and the call with it. -/
  threw : Bool
  deriving DecidableEq, Repr

/-- What one worker's callers share: who holds each slot. -/
structure State where
  held : OrderedMap String Nat
  callers : List Caller

/-- Before any call. -/
def State.empty : State where
  held := .empty
  callers := []

/-- Whether a caller's promise is resolved. -/
def State.resolved (state : State) (caller : Nat) : Bool :=
  (state.callers[caller]?.map Caller.phase) = some .released

/-- The holders of a call's slots. -/
def State.busy (state : State) (call : Call) : List Nat :=
  call.slots.filterMap state.held.get?

/-- A caller looks: it takes its slots if none is held, or waits for those that are. -/
def State.look (state : State) (index : Nat) (call : Call) : State :=
  if state.busy call = [] then
    { held := call.slots.foldl (fun held slot => held.set slot index) state.held
      callers := state.callers.set index { call, phase := .holding, threw := false } }
  else
    { state with
      callers := state.callers.set index
        { call, phase := .waiting (state.busy call), threw := false } }

/-- A caller lets go of each slot that is still its own. -/
def State.free (state : State) (index : Nat) (call : Call) (threw : Bool) : State where
  held := call.slots.foldl
    (fun held slot => if held.get? slot = some index then held.erase slot else held)
    state.held
  callers := state.callers.set index { call, phase := .released, threw }

/-- What may happen next. -/
inductive Step where
  | arrive (call : Call)
  | wake (caller : Nat)
  /-- The function `takeFolders` returned is called, as often as it may be. -/
  | release (caller : Nat)
  /-- The body of `holdFolder` ends. -/
  | finish (caller : Nat) (threw : Bool)
  deriving DecidableEq, Repr

/-- One step; what cannot happen leaves all as it is. -/
def step (state : State) : Step → State
  | .arrive call =>
    State.look
      { state with
        callers := state.callers ++ [{ call, phase := .waiting [], threw := false }] }
      state.callers.length call
  | .wake index =>
    match state.callers[index]? with
    | some { call, phase := .waiting busy, .. } =>
      if busy.any state.resolved then state.look index call else state
    | _ => state
  | .release index =>
    match state.callers[index]? with
    | some { phase := .waiting _, .. } => state
    | some { call := .takeFolders workspaceId folders, threw, .. } =>
      state.free index (.takeFolders workspaceId folders) threw
    | _ => state
  | .finish index threw =>
    match state.callers[index]? with
    | some { call := .holdFolder workspaceId folder, phase := .holding, .. } =>
      state.free index (.holdFolder workspaceId folder) threw
    | _ => state

/-- The state after some steps of the worker. -/
def after (steps : List Step) : State :=
  Runs.run step .empty steps

theorem get?_foldl_set
    (slots : List String)
    (held : OrderedMap String Nat)
    (index : Nat)
    (slot : String) :
    (slots.foldl (fun held slot => held.set slot index) held).get? slot =
      if slot ∈ slots then some index else held.get? slot := by
  induction slots generalizing held with
  | nil => simp
  | cons first rest inductionHypothesis =>
    rw [foldl_cons, inductionHypothesis, get?_set]
    by_cases later : slot ∈ rest
    · simp [later]
    · by_cases own : slot = first
      · simp [own]
      · simp [later, own]

/-- A holder's slots are freed and no one else's are. -/
theorem get?_foldl_erase
    (slots : List String)
    (held : OrderedMap String Nat)
    (index : Nat)
    (slot : String) :
    (slots.foldl
      (fun held slot => if held.get? slot = some index then held.erase slot else held)
      held).get? slot =
      if slot ∈ slots ∧ held.get? slot = some index then none
      else held.get? slot := by
  induction slots generalizing held with
  | nil => simp
  | cons first rest inductionHypothesis =>
    have erased : (if held.get? first = some index then held.erase first
        else held).get? slot =
        if slot = first ∧ held.get? slot = some index then none
        else held.get? slot := by
      by_cases same : slot = first
      · subst same
        by_cases own : held.get? slot = some index
        · simp [get?_erase, own]
        · simp [own]
      · by_cases own : held.get? first = some index
        · simp [get?_erase, own, same]
        · simp [own, same]
    rw [foldl_cons, inductionHypothesis, erased]
    by_cases own : held.get? slot = some index
    · by_cases same : slot = first
      · simp [same]
      · simp [same, own]
    · simp [own]

theorem free_of_busy
    {state : State}
    {call : Call}
    (none_ : state.busy call = [])
    {slot : String}
    (member : slot ∈ call.slots) :
    state.held.get? slot = none := by
  cases found : state.held.get? slot with
  | none => rfl
  | some holder =>
    have busy : holder ∈ state.busy call :=
      mem_filterMap.mpr ⟨slot, member, found⟩
    rw [none_] at busy
    cases busy

/-- Whether a caller holds a slot: it took it, and has not let go. -/
def Holds (state : State) (index : Nat) (slot : String) : Prop :=
  ∃ caller, state.callers[index]? = some caller ∧
    caller.phase = .holding ∧ slot ∈ caller.call.slots

/-- Whether a caller holds a folder of a workspace at an epoch. -/
def HoldsFolder
    (state : State)
    (index : Nat)
    (workspaceId : String)
    (folder : HeldFolder) :
    Prop :=
  ∃ caller, state.callers[index]? = some caller ∧
    caller.phase = .holding ∧
    caller.call.workspaceId = workspaceId ∧
    folder ∈ caller.call.folders

/-- Whether a caller has come to take some slots. -/
def Took (state : State) (index : Nat) : Prop :=
  ∃ caller, state.callers[index]? = some caller ∧
    caller.call.slots ≠ [] ∧
    (caller.phase = .holding ∨ caller.phase = .released)

/-- The slots held are those of the callers that hold, and who waits does so for them. -/
structure Fair (state : State) : Prop where
  held : ∀ slot index, state.held.get? slot = some index ↔ Holds state index slot
  waits : ∀ (index : Nat) (caller : Caller) (busy : List Nat),
    state.callers[index]? = some caller →
    caller.phase = .waiting busy →
    busy ≠ [] ∧ ∀ holder ∈ busy, Took state holder

theorem fair_empty : Fair .empty where
  held slot index := by simp [State.empty, Holds]
  waits index caller busy found := by simp [State.empty] at found

variable {state : State} {index : Nat}

theorem getElem?_set_self_of_some
    {caller : Caller}
    (found : state.callers[index]? = some caller)
    (next : Caller) :
    (state.callers.set index next)[index]? = some next := by
  rw [getElem?_set_self]
  exact (List.getElem?_eq_some_iff.mp found).1

theorem holds_set
    {other : Nat}
    (differs : other ≠ index)
    (held : OrderedMap String Nat)
    (next : Caller)
    (slot : String) :
    Holds { held, callers := state.callers.set index next } other slot ↔
      Holds state other slot := by
  simp only [Holds, getElem?_set_ne differs.symm]

theorem Took.set
    {call : Call}
    {waited : List Nat}
    {threw : Bool}
    {next : Caller}
    {callers : List Caller}
    {holder : Nat}
    (took : Took state holder)
    (found : state.callers[index]? =
      some { call, phase := .waiting waited, threw })
    (set : callers = state.callers.set index next)
    {held : OrderedMap String Nat} :
    Took { held, callers } holder := by
  obtain ⟨caller, isHolder, some_, phase⟩ := took
  have differs : index ≠ holder := by
    rintro rfl
    rw [found] at isHolder
    cases isHolder
    rcases phase with holds | released
    · cases holds
    · cases released
  refine ⟨caller, ?_, some_, phase⟩
  rw [set]
  change (state.callers.set index next)[holder]? = some caller
  rw [getElem?_set_ne differs]
  exact isHolder

/-- A caller that looks again waits only for callers that took a slot. -/
theorem fair_look
    {call : Call}
    {waited : List Nat}
    {threw : Bool}
    (held : ∀ slot index, state.held.get? slot = some index ↔ Holds state index slot)
    (found : state.callers[index]? =
      some { call, phase := .waiting waited, threw })
    (waits : ∀ (other : Nat) (caller : Caller) (busy : List Nat),
      other ≠ index →
      state.callers[other]? = some caller →
      caller.phase = .waiting busy →
      busy ≠ [] ∧ ∀ holder ∈ busy, Took state holder) :
    Fair (state.look index call) := by
  have notHolding : ∀ slot, ¬ Holds state index slot := by
    rintro slot ⟨caller, isCaller, phase, _⟩
    rw [found] at isCaller
    cases isCaller
    cases phase
  rw [State.look]
  split
  · next none_ =>
      exact {
        held := by
          intro slot other
          rw [get?_foldl_set]
          by_cases same : other = index
          · subst same
            constructor
            · intro isHeld
              refine ⟨_, getElem?_set_self_of_some found _, rfl, ?_⟩
              by_contra outside
              rw [if_neg outside] at isHeld
              exact notHolding slot ((held slot other).mp isHeld)
            · rintro ⟨caller, isCaller, _, member⟩
              change (state.callers.set other _)[other]? = some caller at isCaller
              rw [getElem?_set_self_of_some found] at isCaller
              cases isCaller
              rw [if_pos member]
          · rw [holds_set same, ← held slot other]
            split
            · next member =>
                rw [free_of_busy none_ member]
                constructor
                · intro isIndex
                  exact absurd (Option.some.inj isIndex).symm same
                · intro isNone
                  cases isNone
            · rfl
        waits := by
          intro other caller busy isCaller phase
          by_cases same : other = index
          · subst same
            change (state.callers.set other _)[other]? = some caller at isCaller
            rw [getElem?_set_self_of_some found] at isCaller
            cases isCaller
            cases phase
          · change (state.callers.set index _)[other]? = some caller at isCaller
            rw [getElem?_set_ne (Ne.symm same)] at isCaller
            obtain ⟨nonempty, each⟩ := waits other caller busy same isCaller phase
            exact ⟨nonempty, fun holder member => (each holder member).set found rfl⟩
      }
  · next some_ =>
      exact {
        held := by
          intro slot other
          by_cases same : other = index
          · subst same
            rw [held slot other]
            refine iff_of_false (notHolding slot) ?_
            rintro ⟨caller, isCaller, phase, _⟩
            change (state.callers.set other _)[other]? = some caller at isCaller
            rw [getElem?_set_self_of_some found] at isCaller
            cases isCaller
            cases phase
          · rw [holds_set same]
            exact held slot other
        waits := by
          intro other caller busy isCaller phase
          by_cases same : other = index
          · subst same
            change (state.callers.set other _)[other]? = some caller at isCaller
            rw [getElem?_set_self_of_some found] at isCaller
            cases isCaller
            cases phase
            refine ⟨some_, fun holder member => ?_⟩
            obtain ⟨slot, _, isHeld⟩ := mem_filterMap.mp member
            obtain ⟨owner, isOwner, holding, inSlots⟩ := (held slot holder).mp isHeld
            have took : Took state holder :=
              ⟨owner, isOwner, ne_nil_of_mem inSlots, .inl holding⟩
            exact took.set found rfl
          · change (state.callers.set index _)[other]? = some caller at isCaller
            rw [getElem?_set_ne (Ne.symm same)] at isCaller
            obtain ⟨nonempty, each⟩ := waits other caller busy same isCaller phase
            exact ⟨nonempty, fun holder member => (each holder member).set found rfl⟩
      }

/-- Freeing a caller's slots keeps the queue fair. -/
theorem Fair.free
    (fair : Fair state)
    {caller : Caller}
    (found : state.callers[index]? = some caller)
    (threw : Bool) :
    Fair (state.free index caller.call threw) := by
  have self := getElem?_set_self_of_some found
    { call := caller.call, phase := .released, threw }
  exact {
    held := by
      intro slot other
      rw [State.free]
      simp only [get?_foldl_erase]
      by_cases same : other = index
      · subst same
        constructor
        · intro isHeld
          split at isHeld
          · cases isHeld
          · next outside =>
              obtain ⟨owner, isOwner, _, member⟩ := (fair.held slot other).mp isHeld
              rw [found] at isOwner
              cases isOwner
              exact absurd ⟨member, isHeld⟩ outside
        · rintro ⟨owner, isOwner, holding, _⟩
          change (state.callers.set other _)[other]? = some owner at isOwner
          rw [self] at isOwner
          cases isOwner
          cases holding
      · rw [holds_set same, ← fair.held slot other]
        split
        · next own =>
            rw [own.2]
            constructor
            · intro none_
              cases none_
            · intro isOther
              exact absurd (Option.some.inj isOther).symm same
        · rfl
    waits := by
      intro other waiter busy isWaiter phase
      by_cases same : other = index
      · subst same
        change (state.callers.set other _)[other]? = some waiter at isWaiter
        rw [self] at isWaiter
        cases isWaiter
        cases phase
      · change (state.callers.set index _)[other]? = some waiter at isWaiter
        rw [getElem?_set_ne (Ne.symm same)] at isWaiter
        obtain ⟨nonempty, each⟩ := fair.waits other waiter busy isWaiter phase
        refine ⟨nonempty, fun holder member => ?_⟩
        obtain ⟨owner, isOwner, some_, tookPhase⟩ := each holder member
        by_cases own : holder = index
        · subst own
          rw [found] at isOwner
          cases isOwner
          exact ⟨_, self, some_, .inr rfl⟩
        · refine ⟨owner, ?_, some_, tookPhase⟩
          change (state.callers.set index _)[holder]? = some owner
          rw [getElem?_set_ne (Ne.symm own)]
          exact isOwner
  }

theorem getElem?_concat_ne
    {callers : List Caller}
    {other : Nat}
    (differs : other ≠ callers.length)
    (caller : Caller) :
    (callers ++ [caller])[other]? = callers[other]? := by
  rcases Nat.lt_or_ge other callers.length with below | above
  · exact getElem?_append_left below
  · rw [getElem?_eq_none above, getElem?_eq_none]
    rw [length_append, length_singleton]
    omega

/-- A new caller joins the queue behind the others. -/
theorem Fair.arrive
    (fair : Fair state)
    (call : Call) :
    Fair (step state (.arrive call)) := by
  have others : ∀ {other : Nat}, other ≠ state.callers.length →
      ∀ slot, Holds { state with
        callers := state.callers ++
          [{ call, phase := .waiting [], threw := false }] } other slot ↔
        Holds state other slot := by
    intro other differs slot
    simp only [Holds, getElem?_concat_ne differs]
  refine @fair_look _ _ call [] false ?_ getElem?_concat_length ?_
  · intro slot other
    by_cases same : other = state.callers.length
    · subst same
      refine iff_of_false ?_ ?_
      · intro isHeld
        obtain ⟨owner, isOwner, _⟩ := (fair.held slot _).mp isHeld
        rw [getElem?_eq_none (Nat.le_refl _)] at isOwner
        cases isOwner
      · rintro ⟨owner, isOwner, holding, _⟩
        rw [getElem?_concat_length] at isOwner
        cases isOwner
        cases holding
    · rw [others same]
      exact fair.held slot other
  · intro other caller busy differs isCaller phase
    rw [getElem?_concat_ne differs] at isCaller
    obtain ⟨nonempty, each⟩ := fair.waits other caller busy isCaller phase
    refine ⟨nonempty, fun holder member => ?_⟩
    obtain ⟨owner, isOwner, took⟩ := each holder member
    refine ⟨owner, ?_, took⟩
    rw [getElem?_concat_ne]
    · exact isOwner
    · rintro rfl
      rw [getElem?_eq_none (Nat.le_refl _)] at isOwner
      cases isOwner

theorem Fair.step
    (fair : Fair state)
    (next : Step) :
    Fair (step state next) := by
  cases next with
  | arrive call => exact fair.arrive call
  | wake caller =>
    rw [WalkHolds.step]
    split
    · next call busy threw found =>
        split
        · exact fair_look fair.held found
            fun other caller busy _ => fair.waits other caller busy
        · exact fair
    · exact fair
  | release caller =>
    rw [WalkHolds.step]
    split
    · exact fair
    · next workspaceId folders phase threw _ found => exact fair.free found threw
    · exact fair
  | finish caller threw =>
    rw [WalkHolds.step]
    split
    · next found => exact fair.free found threw
    · exact fair

theorem fair_after (steps : List Step) : Fair (after steps) :=
  Runs.keeps_of_step Fair (fun _ next fair => fair.step next) steps fair_empty

theorem mem_slots {call : Call} {slot : String} :
    slot ∈ call.slots ↔ ∃ folder ∈ call.folders,
      slotOf call.workspaceId folder = slot := by
  rw [Call.slots, mem_eraseDups, mem_map]

theorem HoldsFolder.slot
    {workspaceId : String}
    {folder : HeldFolder}
    (holds : HoldsFolder state index workspaceId folder) :
    Holds state index (slotOf workspaceId folder) := by
  obtain ⟨caller, found, holding, rfl, member⟩ := holds
  exact ⟨caller, found, holding, mem_slots.mpr ⟨folder, member, rfl⟩⟩

theorem Holds.folder
    {slot : String}
    (holds : Holds state index slot) :
    ∃ workspaceId folder, HoldsFolder state index workspaceId folder := by
  obtain ⟨caller, found, holding, member⟩ := holds
  obtain ⟨folder, inFolders, _⟩ := mem_slots.mp member
  exact ⟨_, folder, caller, found, holding, rfl, inFolders⟩

theorem Fair.unique
    (fair : Fair state)
    {first second : Nat}
    {slot : String}
    (holdsFirst : Holds state first slot)
    (holdsSecond : Holds state second slot) :
    first = second := by
  have isFirst := (fair.held slot first).mpr holdsFirst
  rw [(fair.held slot second).mpr holdsSecond] at isFirst
  exact (Option.some.inj isFirst).symm

theorem Fair.busy_eq_nil
    (fair : Fair state)
    (idle : ∀ holder workspaceId folder,
      ¬ HoldsFolder state holder workspaceId folder)
    (call : Call) :
    state.busy call = [] := by
  rw [State.busy, filterMap_eq_nil_iff]
  intro slot _
  cases found : state.held.get? slot with
  | none => rfl
  | some holder =>
    obtain ⟨workspaceId, folder, holds⟩ := ((fair.held slot holder).mp found).folder
    exact absurd holds (idle holder workspaceId folder)

theorem Took.resolved
    (took : Took state index)
    (idle : ∀ holder workspaceId folder,
      ¬ HoldsFolder state holder workspaceId folder) :
    state.resolved index = true := by
  obtain ⟨caller, found, some_, holding | released⟩ := took
  · obtain ⟨slot, member⟩ := exists_mem_of_ne_nil _ some_
    obtain ⟨workspaceId, folder, holds⟩ :=
      Holds.folder ⟨caller, found, holding, member⟩
    exact absurd holds (idle index workspaceId folder)
  · rw [State.resolved, found, Option.map_some, released]
    rfl

theorem Fair.proceeds
    (fair : Fair state)
    (idle : ∀ holder workspaceId folder,
      ¬ HoldsFolder state holder workspaceId folder)
    {call : Call}
    {busy : List Nat}
    {threw : Bool}
    (found : state.callers[index]? =
      some { call, phase := .waiting busy, threw }) :
    (WalkHolds.step state (.wake index)).callers[index]? =
      some { call, phase := .holding, threw := false } := by
  obtain ⟨nonempty, each⟩ := fair.waits index _ busy found rfl
  obtain ⟨holder, member⟩ := exists_mem_of_ne_nil _ nonempty
  have woken : busy.any state.resolved = true :=
    any_eq_true.mpr ⟨holder, member, (each holder member).resolved idle⟩
  rw [WalkHolds.step, found]
  simp only [woken, if_true]
  rw [State.look, if_pos (fair.busy_eq_nil idle call)]
  exact getElem?_set_self_of_some found _

/-- The ways a caller lets go: its release, or the end of its body. -/
def Releases : Call → Nat → Step → Prop
  | .takeFolders .., index, next => next = .release index
  | .holdFolder .., index, next => ∃ threw, next = .finish index threw

theorem Fair.get?_free
    (fair : Fair state)
    {caller : Caller}
    (found : state.callers[index]? = some caller)
    (threw : Bool)
    (slot : String) :
    (state.free index caller.call threw).held.get? slot =
      if caller.phase = .holding ∧ slot ∈ caller.call.slots then none
      else state.held.get? slot := by
  rw [State.free]
  simp only [get?_foldl_erase]
  refine if_congr ?_ rfl rfl
  rw [fair.held slot index]
  constructor
  · rintro ⟨member, owner, isOwner, holding, _⟩
    rw [found] at isOwner
    cases isOwner
    exact ⟨holding, member⟩
  · rintro ⟨holding, member⟩
    exact ⟨member, caller, found, holding, member⟩

theorem keeps_held
    {caller : Caller}
    (idle : caller.phase ≠ .holding)
    (slot : String) :
    state.held.get? slot =
      if caller.phase = .holding ∧ slot ∈ caller.call.slots then none
      else state.held.get? slot := by
  rw [if_neg fun both => idle both.1]

/-- A release empties exactly the slots that the caller holds. -/
theorem Fair.get?_release
    (fair : Fair state)
    {caller : Caller}
    {next : Step}
    (found : state.callers[index]? = some caller)
    (releases : Releases caller.call index next)
    (slot : String) :
    (WalkHolds.step state next).held.get? slot =
      if caller.phase = .holding ∧ slot ∈ caller.call.slots then none
      else state.held.get? slot := by
  obtain ⟨call, phase, threw⟩ := caller
  cases call with
  | takeFolders workspaceId folders =>
    cases releases
    cases phase with
    | waiting busy =>
      rw [WalkHolds.step, found]
      exact keeps_held (fun holding => by cases holding) slot
    | holding =>
      rw [WalkHolds.step, found]
      exact fair.get?_free found threw slot
    | released =>
      rw [WalkHolds.step, found]
      exact fair.get?_free found threw slot
  | holdFolder workspaceId folder =>
    obtain ⟨threw', rfl⟩ := releases
    cases phase with
    | waiting busy =>
      rw [WalkHolds.step, found]
      exact keeps_held (fun holding => by cases holding) slot
    | holding =>
      rw [WalkHolds.step, found]
      exact fair.get?_free found threw' slot
    | released =>
      rw [WalkHolds.step, found]
      exact keeps_held (fun holding => by cases holding) slot

/--
After any steps of the worker's callers a folder has one holder; letting go frees
exactly the caller's own slots, and nothing a second time; who waits holds
nothing, and proceeds where nobody holds; and a body's end, thrown or not, leaves
none of its slots held.
-/
theorem folders_held (steps : List Step) :
    (∀ first second workspaceId folder,
      HoldsFolder (after steps) first workspaceId folder →
      HoldsFolder (after steps) second workspaceId folder →
      first = second) ∧
    (∀ (index : Nat) (caller : Caller) (next : Step),
      (after steps).callers[index]? = some caller →
      Releases caller.call index next →
      ∀ slot,
        (caller.phase = .holding → slot ∈ caller.call.slots →
          (after steps).held.get? slot = some index) ∧
        (step (after steps) next).held.get? slot =
          if caller.phase = .holding ∧ slot ∈ caller.call.slots then none
          else (after steps).held.get? slot) ∧
    (∀ (index : Nat) (caller : Caller) (busy : List Nat),
      (after steps).callers[index]? = some caller →
      caller.phase = .waiting busy →
      (∀ slot, (after steps).held.get? slot ≠ some index) ∧
        ((∀ holder workspaceId folder,
            ¬ HoldsFolder (after steps) holder workspaceId folder) →
          (step (after steps) (.wake index)).callers[index]? =
            some { call := caller.call, phase := .holding, threw := false })) ∧
    (∀ (index : Nat) (workspaceId : String) (folder : HeldFolder) (threw failed : Bool),
      (after steps).callers[index]? =
        some { call := .holdFolder workspaceId folder, phase := .holding, threw } →
      (step (after steps) (.finish index failed)).callers[index]? =
          some
            { call := .holdFolder workspaceId folder, phase := .released,
              threw := failed } ∧
        ∀ slot, (step (after steps) (.finish index failed)).held.get? slot ≠
          some index) := by
  have fair := fair_after steps
  refine ⟨?_, ?_, ?_, ?_⟩
  · intro first second workspaceId folder holdsFirst holdsSecond
    exact fair.unique holdsFirst.slot holdsSecond.slot
  · intro index caller next found releases slot
    refine ⟨fun holding member => ?_, fair.get?_release found releases slot⟩
    exact (fair.held slot index).mpr ⟨caller, found, holding, member⟩
  · intro index caller busy found waiting
    refine ⟨fun slot isHeld => ?_, fun idle => ?_⟩
    · obtain ⟨owner, isOwner, holding, _⟩ := (fair.held slot index).mp isHeld
      rw [found] at isOwner
      cases isOwner
      rw [waiting] at holding
      cases holding
    · obtain ⟨call, phase, threw⟩ := caller
      cases waiting
      exact fair.proceeds idle found
  · intro index workspaceId folder threw failed found
    have ended : (step (after steps) (.finish index failed)).callers[index]? =
        some
          { call := .holdFolder workspaceId folder, phase := .released,
            threw := failed } := by
      rw [WalkHolds.step, found]
      exact getElem?_set_self_of_some found _
    refine ⟨ended, fun slot isHeld => ?_⟩
    obtain ⟨owner, isOwner, holding, _⟩ :=
      ((fair.step (.finish index failed)).held slot index).mp isHeld
    rw [ended] at isOwner
    cases isOwner
    cases holding

/-- Two callers with a folder in common, one waiting until the other lets go. -/
theorem folders_held_two :
    let common : HeldFolder := ⟨"b", 1⟩
    let steps : List Step :=
      [.arrive (.takeFolders "w" [⟨"a", 1⟩, common, common]),
        .arrive (.holdFolder "w" common), .release 0, .wake 1]
    HoldsFolder (after steps) 1 "w" common ∧
      ∀ other, HoldsFolder (after steps) other "w" common → other = 1 := by
  intro common steps
  have holds : HoldsFolder (after steps) 1 "w" common :=
    ⟨{ call := .holdFolder "w" common, phase := .holding, threw := false },
      by decide, rfl, rfl, by simp [Call.folders]⟩
  exact ⟨holds, fun other also => (folders_held steps).1 other 1 "w" common also holds⟩

end WalkHolds

end HushOS
