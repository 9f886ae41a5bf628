import HushOS.Acceptance.Marks
import HushOS.Toolkit.Runs

namespace HushOS

open Toolkit

/-!
# Join codes shown

A newcomer compares a join code with an admin's screen: two of its words are
hidden, at positions drawn when the code is first shown, and typed from what
the admin reads out.  A wrong pair holds the code's positions until a match,
and the family's next wrong pair is the alarm.  What a wrong pair leaves is
kept, sealed, for the next session to fold in.
-/

namespace Joining

def NOT_SHOWN : String := "Compare the join code again."

def TOO_MANY : String :=
  "Too many join codes were shown for this family. Compare it again later."

def MAX_SHOWN_CODES : Nat := 64

/-- Two positions of a code's twelve words, ascending. -/
structure Positions where
  first : Nat
  second : Nat
  ascending : first < second
  within : second ≤ 11
  deriving DecidableEq, Repr

/-- The positions as a pair of numbers. -/
def Positions.pair (positions : Positions) : List Nat :=
  [positions.first, positions.second]

/-- What is hidden for one code, whether held, and when it was first shown. -/
structure Issued where
  positions : Positions
  held : Bool
  seq : Nat
  deriving DecidableEq, Repr

/-- One family's escalation: its wrong pair, and what each code shown has. -/
structure JoinFamily where
  tried : Bool
  issued : OrderedMap String Issued
  seq : Nat

/-- A family no code was shown for. -/
def newJoinFamily : JoinFamily where
  tried := false
  issued := .empty
  seq := 0

/-- What a code's positions are issued under. -/
def codeKey (mark : JoinMark) : String :=
  joined ' ' (toString mark.rosterVersion :: mark.code)

/-- The earlier of two codes, when no wrong pair holds the second. -/
def earlierFree (oldest : Option (String × Issued)) (entry : String × Issued) :
    Option (String × Issued) :=
  if entry.2.held = false ∧
      ∀ earlier ∈ oldest, entry.2.seq < earlier.2.seq then
    some entry
  else
    oldest

/-- The earliest code no wrong pair holds. -/
def earliestFree (entries : List (String × Issued)) :
    Option (String × Issued) :=
  entries.foldl earlierFree none

/-- Room for one more code: the earliest free one goes, or it is refused. -/
def makeRoom (family : JoinFamily) : Except CryptoError JoinFamily :=
  if family.issued.size < MAX_SHOWN_CODES then
    .ok family
  else
    match earliestFree family.issued.entries with
    | none => .error ⟨TOO_MANY⟩
    | some oldest =>
      .ok { family with issued := family.issued.erase oldest.1 }

/-- Issue positions under a key. -/
def insert
    (family : JoinFamily)
    (key : String)
    (positions : Positions)
    (held : Bool) : JoinFamily :=
  { family with
    seq := family.seq + 1
    issued := family.issued.set key { positions, held, seq := family.seq + 1 } }

def DRAW_LIMIT : Nat := 2 ^ 32 - 2 ^ 32 % 12

/-- One of 0 to 11 from 32-bit draws, other than one taken already. -/
def position (taken : Option Nat) : List Nat → Option (Nat × List Nat)
  | [] => none
  | value :: rest =>
    if value < DRAW_LIMIT ∧ some (value % 12) ≠ taken then
      some (value % 12, rest)
    else
      position taken rest

/-- Two positions, the lesser first. -/
def ordered (first second : Nat) : Option Positions :=
  if ascends : first < second ∧ second ≤ 11 then
    some ⟨first, second, ascends.1, ascends.2⟩
  else if descends : second < first ∧ first ≤ 11 then
    some ⟨second, first, descends.1, descends.2⟩
  else
    none

/-- Two positions for one showing, none when the draws run out. -/
def hiddenPositions (draws : List Nat) : Option Positions := do
  let (first, rest) ← position none draws
  let (second, _) ← position (some first) rest
  ordered first second

/-- Draws of a generator that does not run out: they give two positions. -/
structure Draws where
  values : List Nat
  enough : (hiddenPositions values).isSome = true

/-- The positions draws give. -/
def Draws.positions (next : Draws) : Positions :=
  (hiddenPositions next.values).get next.enough

/-- One showing: its positions, drawn only when the code was never shown. -/
def showCode (family : JoinFamily) (mark : JoinMark) (next : Draws) :
    Except CryptoError (JoinFamily × Positions) :=
  match family.issued.get? (codeKey mark) with
  | some issued => .ok (family, issued.positions)
  | none => do
      let room ← makeRoom family
      .ok (insert room (codeKey mark) next.positions false, next.positions)

/-- Whether a family still holds positions as a code's. -/
def stillShown (family : JoinFamily) (mark : JoinMark) (hidden : List Nat) :
    Bool :=
  match family.issued.get? (codeKey mark) with
  | some issued => issued.positions.pair = hidden
  | none => false

/-- The characters trimming takes off. -/
def isBlank (char : Char) : Bool :=
  char.toNat ∈
    [0x09, 0x0a, 0x0b, 0x0c, 0x0d, 0x20, 0xa0, 0x1680, 0x2028, 0x2029, 0x202f,
      0x205f, 0x3000, 0xfeff] ∨
    (0x2000 ≤ char.toNat ∧ char.toNat ≤ 0x200a)

/-- A word without the blanks around it. -/
def trim (word : String) : String :=
  String.ofList (word.toList.rdropWhile isBlank |>.dropWhile isBlank)

/--
A character in lower case, as far as the letters a to z go: no character but
these becomes one of them.
-/
def lowerChar (char : Char) : Char :=
  if 0x41 ≤ char.toNat ∧ char.toNat ≤ 0x5a then
    Char.ofNat (char.toNat + 32)
  else if char.toNat = 0x212a then
    'k'
  else
    char

/-- A word in lower case. -/
def toLowerCase (word : String) : String :=
  String.ofList (word.toList.map lowerChar)

/-- How typed words compare. -/
inductive JoinCheck where
  | matches
  | noMatch
  | incomplete
  deriving DecidableEq, Repr

/-- Whether the typed words are the code's at the hidden positions. -/
def joinCheck (code : List String) (hidden : List Nat) (typed : List String) :
    Except CryptoError JoinCheck := do
  refuseIf (twelveWords code = false) ⟨"Invalid join code."⟩
  match hidden with
  | [first, second] => do
      refuseIf (11 < first ∨ 11 < second ∨ second ≤ first)
        ⟨"Invalid hidden positions."⟩
      match typed with
      | [one, two] =>
        if trim one = "" ∨ trim two = "" then
          .ok .incomplete
        else if code[first]? = some (toLowerCase (trim one)) ∧
            code[second]? = some (toLowerCase (trim two)) then
          .ok .matches
        else
          .ok .noMatch
      | _ => .ok .incomplete
  | _ => .error ⟨"Invalid hidden positions."⟩

/-- What a check answers. -/
inductive Answer where
  | matches
  | wrongWords
  | mismatch
  deriving DecidableEq, Repr

/--
The typed words against a code at the positions issued for it: a match clears
the escalation, a wrong pair holds the code and is the family's wrong pair.
-/
def checkCode (family : JoinFamily) (mark : JoinMark) (typed : List String) :
    Except CryptoError (JoinFamily × Answer) :=
  match family.issued.get? (codeKey mark) with
  | none => .error ⟨NOT_SHOWN⟩
  | some issued => do
      let compared ← joinCheck mark.code issued.positions.pair typed
      if compared = .matches then
        .ok ({ family with
          tried := false
          issued := family.issued.set (codeKey mark)
            { issued with held := false } }, .matches)
      else
        .ok ({ family with
          tried := true
          issued := family.issued.set (codeKey mark)
            { issued with held := true } },
          if issued.held || family.tried then .mismatch else .wrongWords)

/-- A held code, as kept. -/
structure HeldCode where
  rosterVersion : Nat
  code : List String
  positions : Positions
  deriving DecidableEq, Repr

/-- A family's escalation, as kept. -/
structure HoldsValue where
  tried : Bool
  held : List HeldCode
  deriving DecidableEq, Repr

/-- The order of word lists: word by word, then by length. -/
def compareLists : List String → List String → Ordering
  | first :: rest, second :: others =>
    if first ≠ second then
      if first < second then .lt else .gt
    else
      compareLists rest others
  | [], [] => .eq
  | [], _ :: _ => .lt
  | _ :: _, [] => .gt

/-- The order held codes are kept in. -/
def compareHeld (first second : HeldCode) : Ordering :=
  if first.rosterVersion ≠ second.rosterVersion then
    compare first.rosterVersion second.rosterVersion
  else
    compareLists first.code second.code

/-- Whether a held code may stand before another. -/
def MayPrecede (first second : HeldCode) : Prop :=
  compareHeld first second ≠ .gt

instance : DecidableRel MayPrecede := fun first second =>
  inferInstanceAs (Decidable (compareHeld first second ≠ .gt))

/-- An issued code read back from its key. -/
def heldCode (key : String) (positions : Positions) : HeldCode :=
  match (key.toList.splitOn ' ').map String.ofList with
  | version :: code =>
    { rosterVersion := version.toNat?.getD 0, code, positions }
  | [] => { rosterVersion := 0, code := [], positions }

/-- The codes a family holds, sorted. -/
def heldCodes (family : JoinFamily) : List HeldCode :=
  ((family.issued.entries.filter fun entry => entry.2.held).map fun entry =>
    heldCode entry.1 entry.2.positions).insertionSort MayPrecede

/-- A family's escalation, or nothing when nothing is held. -/
def holdsValue (family : JoinFamily) : Option HoldsValue :=
  if family.tried = false ∧ heldCodes family = [] then
    none
  else
    some { tried := family.tried, held := heldCodes family }

/-- What an opened record may hold: any value its text can be read as. -/
inductive Value where
  | null
  | bool (value : Bool)
  | integer (value : Int)
  | otherNumber
  | text (value : String)
  | array (items : List Value)
  | object (fields : List (String × Value))

/-- An object's field; nothing else has one of these names. -/
def Value.field (name : String) : Value → Option Value
  | .object fields => fields.lookup name
  | _ => none

/-- A value's text. -/
def Value.text? : Value → Option String
  | .text value => some value
  | _ => none

/-- The words of a kept code, when they are twelve words. -/
def codeShape : Value → Option (List String)
  | .array items =>
    (items.mapM Value.text?).filter fun code => twelveWords code
  | _ => none

/-- Two kept positions, when they are two of a code's, ascending. -/
def keptPositions : Value → Option Positions
  | .array [.integer first, .integer second] =>
    if within : 0 ≤ first ∧ first < second ∧ second ≤ 11 then
      some ⟨first.toNat, second.toNat, by omega, by omega⟩
    else
      none
  | _ => none

/-- A kept roster version, when it is a safe integer from 1 on. -/
def keptVersion : Value → Option Nat
  | .integer version =>
    if 1 ≤ version ∧ version ≤ 2 ^ 53 - 1 then some version.toNat else none
  | _ => none

/-- A kept entry, when it reads as a roster version, a code and positions. -/
def readHeld (entry : Value) : Option (JoinMark × Positions) := do
  let rosterVersion ← entry.field "rosterVersion" >>= keptVersion
  let code ← entry.field "code" >>= codeShape
  let positions ← entry.field "positions" >>= keptPositions
  some ({ rosterVersion, code }, positions)

/-- Fold one kept entry in. -/
def restoreHeld (family : JoinFamily) (entry : Value) : JoinFamily :=
  match readHeld entry with
  | none => family
  | some (mark, positions) =>
    match family.issued.get? (codeKey mark) with
    | some issued =>
      if issued.held then
        family
      else
        { family with
          issued := family.issued.set (codeKey mark)
            { issued with positions, held := true } }
    | none =>
      match makeRoom family with
      | .error _ => family
      | .ok room => insert room (codeKey mark) positions true

/-- Fold a kept wrong pair in. -/
def restoreTried (family : JoinFamily) (value : Value) : JoinFamily :=
  match value.field "tried" with
  | some (.bool true) => { family with tried := true }
  | _ => family

/-- Fold a kept escalation in: only ever more held. -/
def restoreHolds (family : JoinFamily) (value : Value) : JoinFamily :=
  match value.field "v" with
  | some (.integer 1) =>
    match value.field "held" with
    | some (.array entries) =>
      entries.foldl restoreHeld (restoreTried family value)
    | _ => restoreTried family value
  | _ => family

/-- A held code as the value it is kept as. -/
def HeldCode.value (held : HeldCode) : Value :=
  .object
    [("rosterVersion", .integer held.rosterVersion),
      ("code", .array (held.code.map .text)),
      ("positions", .array (held.positions.pair.map fun (at_ : Nat) =>
        .integer at_))]

/-- An escalation as the value it is kept as. -/
def HoldsValue.value (kept : HoldsValue) : Value :=
  .object
    [("v", .integer 1), ("tried", .bool kept.tried),
      ("held", .array (kept.held.map HeldCode.value))]

/-- A new session's family, what was kept folded in. -/
def reload (kept : Option HoldsValue) : JoinFamily :=
  match kept with
  | none => newJoinFamily
  | some value => restoreHolds newJoinFamily value.value

/-- A code as acceptance gives it: twelve words, over a roster's version. -/
structure ShownMark where
  mark : JoinMark
  words : twelveWords mark.code = true
  versioned : 1 ≤ mark.rosterVersion ∧ mark.rosterVersion ≤ 2 ^ 53 - 1

/-- A family in the worker, and what was last kept of it. -/
structure Session where
  family : JoinFamily
  kept : Option HoldsValue

/-- Before any code is shown, with nothing kept. -/
def Session.start : Session where
  family := newJoinFamily
  kept := none

/-- What may happen to a family. -/
inductive Step where
  /-- A code is shown. -/
  | shows (shown : ShownMark) (next : Draws)
  /-- Words are checked, and what the check leaves is handed out to keep. -/
  | checks (mark : JoinMark) (typed : List String)
  /-- The escalation is handed out to keep. -/
  | keeps
  /-- A value, kept at any time or made up, is folded in. -/
  | restores (value : Value)
  /-- A new session folds in what was last kept. -/
  | reloads

/-- The family and what is kept after a step; a refused one changes nothing. -/
def step (session : Session) : Step → Session
  | .shows shown next =>
    match showCode session.family shown.mark next with
    | .ok (family, _) => { session with family }
    | .error _ => session
  | .checks mark typed =>
    match checkCode session.family mark typed with
    | .ok (family, _) => { family, kept := holdsValue family }
    | .error _ => session
  | .keeps => { session with kept := holdsValue session.family }
  | .restores value =>
    { session with family := restoreHolds session.family value }
  | .reloads => { session with family := reload session.kept }

end Joining

end HushOS
