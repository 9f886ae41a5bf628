import HushOS.Primitives
import HushOS.Toolkit.ScriptObject

namespace HushOS

open Toolkit List OrderedMap

namespace Contacts

/-!
# The room of a settings document

A settings document holds the pins of a person's contacts and the removals of
people they took out.  What does not fit is refused, but first the oldest
removals are forgotten, one at a time, so that a removal is lost only where
there is no room for it.
-/

open Script (Text Value asciiText objectOf textOf order)

def SETTINGS_MAX_BYTES : Nat := 64 * 1024

def CONTACTS_FULL : CryptoError :=
  ⟨"Your contacts are full. Remove someone you no longer share with."⟩

/-- Whom an account removed and when, as the document has it. -/
inductive RemovedContacts where
  | absent
  | record (fields : OrderedMap Text Value)
  | other (value : Value)

/-- A settings document: the fields read here, and every other. -/
structure Settings where
  version : Nat
  contacts : OrderedMap Text Value
  removedContacts : RemovedContacts
  others : OrderedMap Text Value

/-- A pin, with the account it is of. -/
structure Pin where
  userId : Text
  fields : List (Text × Value)

/-- A pin in its document. -/
def Pin.value (pin : Pin) : Value :=
  .object ((asciiText "userId", .string pin.userId) :: pin.fields)

/-- The field of the removals, if there is one. -/
def RemovedContacts.fields : RemovedContacts → List (Text × Value)
  | .absent => []
  | .record fields => [(asciiText "removedContacts", .object fields.entries)]
  | .other value => [(asciiText "removedContacts", value)]

/-- The document as it is sealed, its version 2. -/
def Settings.value (settings : Settings) : Value :=
  .object
    ((asciiText "version", .number (Script.Number.ofNat 2)) ::
      (asciiText "contacts", .object settings.contacts.entries) ::
      (settings.removedContacts.fields ++ settings.others.entries))

/-- The bytes of the document as it is sealed. -/
def settingsBytes (settings : Settings) : Nat :=
  Script.bytes (Script.write settings.value)

/-- A removal: whose, and when. -/
abbrev Removal := Text × Text

/-- Entries whose value is text. -/
def textEntries (entries : List (Text × Value)) : List Removal :=
  entries.filterMap fun entry => (textOf entry.2).map fun text => (entry.1, text)

/-- The removals a document records, oldest first, what is malformed left out. -/
def removalsOf (settings : Settings) : List Removal :=
  match settings.removedContacts with
  | .record fields =>
    Keyset.inOrder (fun removal : Removal => order removal.2)
      (textEntries (Script.entriesOf fields))
  | _ => []

/-- A removal as a field. -/
def removalField (removal : Removal) : Text × Value :=
  (removal.1, .string removal.2)

/-- `Object.fromEntries` of removals, no field at all for none. -/
def recorded (removals : List Removal) : RemovedContacts :=
  match removals with
  | [] => .absent
  | _ => .record (objectOf (removals.map removalField))

/-- The document with these removals. -/
def Settings.withRemovals (settings : Settings) (removals : List Removal) : Settings :=
  { settings with removedContacts := recorded removals }

/-- The loop of `settingsThatFit`: the oldest removal goes while there is no room. -/
def fitting : List Removal → Settings → Settings
  | [], next => next
  | _ :: rest, next =>
    if SETTINGS_MAX_BYTES < settingsBytes next then
      fitting rest (next.withRemovals rest)
    else
      next

/-- The document with its oldest removals forgotten until it fits. -/
def settingsThatFit (settings : Settings) : Settings :=
  if settingsBytes settings ≤ SETTINGS_MAX_BYTES then
    settings
  else
    fitting (removalsOf settings) settings

section Cases

variable (toLowerCase : Text → Text)

/-- Whether an account removed a person and has not added them back. -/
def contactRemoved (settings : Settings) (userId : Text) : Bool :=
  (removalsOf settings).any fun removal => removal.1 = toLowerCase userId

/-- The removals of everyone else. -/
def removalsBut (settings : Settings) (userId : Text) : List Removal :=
  (removalsOf settings).filter fun removal => removal.1 ≠ toLowerCase userId

/-- The document with a person's removal forgotten. -/
def withoutRemoval (settings : Settings) (userId : Text) : Settings :=
  settings.withRemovals (removalsBut toLowerCase settings userId)

/-- The document with a pin written for its person, or refused. -/
def settingsWithPin (settings : Settings) (pin : Pin) : Except CryptoError Settings := do
  let next := settingsThatFit
    (withoutRemoval toLowerCase
      { settings with contacts := settings.contacts.set pin.userId pin.value }
      pin.userId)
  refuseIf (SETTINGS_MAX_BYTES < settingsBytes next) CONTACTS_FULL
  .ok next

/-- The document with a person's pin removed and the removal recorded. -/
def settingsWithoutContact (settings : Settings) (userId time : Text) : Settings :=
  settingsThatFit
    (Settings.withRemovals
      { settings with
        contacts := settings.contacts.keep fun key =>
          toLowerCase key ≠ toLowerCase userId }
      (removalsBut toLowerCase settings userId ++ [(toLowerCase userId, time)]))

end Cases

theorem textEntries_map (removals : List Removal) :
    textEntries (removals.map removalField) = removals := by
  induction removals with
  | nil => rfl
  | cons removal rest inductionHypothesis =>
    exact congrArg (removal :: ·) inductionHypothesis

theorem keys_textEntries (entries : List (Text × Value)) :
    ((textEntries entries).map Prod.fst).Sublist (entries.map Prod.fst) := by
  induction entries with
  | nil => exact List.Sublist.slnil
  | cons entry rest inductionHypothesis =>
    cases read : textOf entry.2 with
    | none =>
      have left_ : textEntries (entry :: rest) = textEntries rest :=
        filterMap_cons_none (by rw [read]; rfl)
      rw [left_, map_cons]
      exact inductionHypothesis.cons entry.1
    | some text =>
      have kept : textEntries (entry :: rest) = (entry.1, text) :: textEntries rest :=
        filterMap_cons_some (by rw [read]; rfl)
      rw [kept, map_cons, map_cons]
      exact inductionHypothesis.cons_cons entry.1

theorem nodup_removalFields
    {removals : List Removal}
    (distinct : (removals.map Prod.fst).Nodup) :
    ((removals.map removalField).map Prod.fst).Nodup := by
  rw [map_map]
  exact distinct

theorem nodup_removalsOf (settings : Settings) :
    ((removalsOf settings).map Prod.fst).Nodup := by
  rw [removalsOf]
  split
  · next fields _ =>
      have distinct := ((Script.entriesOf_perm fields).map Prod.fst).nodup_iff.mpr
        fields.nodup
      exact (Keyset.inOrder_perm.map Prod.fst).nodup_iff.mpr
        (distinct.sublist (keys_textEntries _))
  · exact nodup_nil

theorem removalsOf_withRemovals
    {settings : Settings}
    {removals : List Removal}
    (distinct : (removals.map Prod.fst).Nodup) :
    (removalsOf (settings.withRemovals removals)).Perm removals := by
  cases removals with
  | nil => exact List.Perm.nil
  | cons removal rest =>
    have entries := Script.entries_objectOf (nodup_removalFields distinct)
    have listed := Script.entriesOf_perm
      (objectOf ((removal :: rest).map removalField))
    rw [entries] at listed
    have texts := listed.filterMap fun entry : Text × Value =>
      (textOf entry.2).map fun text => (entry.1, text)
    exact Keyset.inOrder_perm.trans
      (texts.trans (List.Perm.of_eq (textEntries_map (removal :: rest))))

theorem oldest_first (settings : Settings) :
    (removalsOf settings).Pairwise fun first second =>
      order first.2 ≤ order second.2 := by
  rw [removalsOf]
  split
  · exact Keyset.rising_inOrder
  · exact List.Pairwise.nil

/-- The bytes of a document but for its removals. -/
def frameBytes (settings : Settings) : Nat :=
  Script.fieldBytes (asciiText "version", .number (Script.Number.ofNat 2)) + 1 +
    (Script.fieldBytes (asciiText "contacts", .object settings.contacts.entries) + 1) +
    Script.fieldsBytes settings.others.entries + 1

theorem settingsBytes_eq (settings : Settings) :
    settingsBytes settings =
      frameBytes settings + Script.fieldsBytes settings.removedContacts.fields := by
  rw [settingsBytes, Settings.value, Script.bytes_object (cons_ne_nil _ _),
    Script.fieldsBytes_cons, Script.fieldsBytes_cons, Script.fieldsBytes_append,
    frameBytes]
  omega

/-- The bytes of removals in a document. -/
def removalBytes (removals : List Removal) : Nat :=
  Script.fieldsBytes (recorded removals).fields

theorem settingsBytes_withRemovals (settings : Settings) (removals : List Removal) :
    settingsBytes (settings.withRemovals removals) =
      frameBytes settings + removalBytes removals :=
  settingsBytes_eq (settings.withRemovals removals)

/-- The removals take the bytes of their fields and their braces. -/
theorem removalBytes_eq
    {removals : List Removal}
    (some_ : removals ≠ [])
    (distinct : (removals.map Prod.fst).Nodup) :
    removalBytes removals = Script.fieldsBytes (removals.map removalField) + 20 := by
  have key : Script.bytes (Script.quoted (asciiText "removedContacts")).text = 17 := by
    decide
  have fields : (recorded removals).fields =
      [(asciiText "removedContacts", .object (removals.map removalField))] := by
    cases removals with
    | nil => exact absurd rfl some_
    | cons removal rest =>
      rw [recorded, RemovedContacts.fields,
        Script.entries_objectOf (nodup_removalFields distinct)]
      exact nofun
  have someField : removals.map removalField ≠ [] := by
    rw [ne_eq, map_eq_nil_iff]
    exact some_
  rw [removalBytes, fields, Script.fieldsBytes_cons, Script.fieldBytes, key,
    Script.bytes_object someField, Script.fieldsBytes, Script.fieldsBytes, map_nil,
    sum_nil]
  omega

theorem removalBytes_perm
    {first second : List Removal}
    (same : first.Perm second)
    (distinct : (first.map Prod.fst).Nodup) :
    removalBytes first = removalBytes second := by
  cases first with
  | nil => rw [nil_perm.mp same]
  | cons removal rest =>
    have some_ : second ≠ [] := by
      rintro rfl
      cases perm_nil.mp same
    have distinctToo := (same.map Prod.fst).nodup_iff.mp distinct
    rw [removalBytes_eq (cons_ne_nil _ _) distinct,
      removalBytes_eq some_ distinctToo,
      Script.fieldsBytes_perm (same.map removalField)]

/-- A document that records some removals, whatever their order in it. -/
structure Records (settings : Settings) (held : List Removal) : Prop where
  listed : (removalsOf settings).Perm held
  bytes : settingsBytes settings = settingsBytes (settings.withRemovals held)
  distinct : (held.map Prod.fst).Nodup

/-- What came of a document that records some removals when it was made to fit. -/
structure Fitted (held : List Removal) (settings result : Settings)
    (forgotten kept : List Removal) : Prop where
  whole : held = forgotten ++ kept
  listed : (removalsOf result).Perm kept
  same : ∀ removals, result.withRemovals removals = settings.withRemovals removals
  bytes : settingsBytes result = settingsBytes (settings.withRemovals kept)
  fits : kept = [] ∨ settingsBytes result ≤ SETTINGS_MAX_BYTES
  needed : ∀ front back, forgotten = front ++ back → back ≠ [] →
    SETTINGS_MAX_BYTES < settingsBytes (settings.withRemovals (back ++ kept))

theorem records_withRemovals
    {settings : Settings}
    {removals : List Removal}
    (distinct : (removals.map Prod.fst).Nodup) :
    Records (settings.withRemovals removals) removals where
  listed := removalsOf_withRemovals distinct
  bytes := rfl
  distinct := distinct

variable {held : List Removal} {settings : Settings} {text : Text}
  {toLowerCase : Text → Text}

theorem Records.fitted
    (records : Records settings held)
    (room : settingsBytes settings ≤ SETTINGS_MAX_BYTES) :
    Fitted held settings settings [] held where
  whole := rfl
  listed := records.listed
  same := fun _ => rfl
  bytes := records.bytes
  fits := .inr room
  needed _ _ none_ some_ :=
    absurd (append_eq_nil_iff.mp none_.symm).2 some_

/-- Fitting forgets some removals and keeps the rest. -/
theorem Records.exists_fitting
    (records : Records settings held) :
    ∃ forgotten kept, Fitted held settings (fitting held settings) forgotten kept := by
  induction held generalizing settings with
  | nil =>
    refine ⟨[], [], rfl, records.listed, fun _ => rfl, records.bytes, .inl rfl, ?_⟩
    intro front back none_ some_
    exact absurd (append_eq_nil_iff.mp none_.symm).2 some_
  | cons oldest rest inductionHypothesis =>
    rw [fitting]
    split
    · next full =>
        have distinct := (nodup_cons.mp records.distinct).2
        obtain ⟨forgotten, kept, fitted⟩ :=
          inductionHypothesis (@records_withRemovals settings rest distinct)
        refine ⟨oldest :: forgotten, kept, ?_, fitted.listed, fitted.same, fitted.bytes,
          fitted.fits, ?_⟩
        · rw [fitted.whole]
          rfl
        · intro front back parts some_
          cases front with
          | nil =>
            have all_ : back ++ kept = oldest :: rest := by
              rw [fitted.whole, ← cons_append, parts]
              rfl
            rw [all_, ← records.bytes]
            exact full
          | cons first front =>
            exact fitted.needed front back (List.cons.inj parts).2 some_
    · next room => exact ⟨[], oldest :: rest, records.fitted (not_lt.mp room)⟩

theorem exists_fitted
    (records : Records settings (removalsOf settings)) :
    ∃ forgotten kept,
      Fitted (removalsOf settings) settings (settingsThatFit settings) forgotten kept := by
  rw [settingsThatFit]
  split
  · next room => exact ⟨[], _, records.fitted room⟩
  · exact records.exists_fitting

theorem Records.itself
    (records : Records settings held) :
    Records settings (removalsOf settings) where
  listed := List.Perm.refl _
  bytes := by
    rw [records.bytes, settingsBytes_withRemovals, settingsBytes_withRemovals,
      removalBytes_perm records.listed (nodup_removalsOf settings)]
  distinct := nodup_removalsOf settings

/--
Removals forgotten of those held: the oldest, and no more than the room of the
document made necessary.
-/
structure Forgets (held : List Removal) (next : Settings) (forgotten : List Removal) :
    Prop where
  apart : (forgotten ++ removalsOf next).Perm held
  oldest : ∀ gone ∈ forgotten, ∀ kept ∈ removalsOf next, order gone.2 ≤ order kept.2
  needed : ∀ front back, forgotten = front ++ back → back ≠ [] →
    SETTINGS_MAX_BYTES < settingsBytes (next.withRemovals (back ++ removalsOf next))

variable {result : Settings} {forgotten kept : List Removal}

/-- The removals forgotten are the oldest. -/
theorem Fitted.forgets
    {settings : Settings}
    (fitted : Fitted (removalsOf settings) settings result forgotten kept)
    (records : Records settings held) :
    Forgets held result forgotten where
  apart := ((fitted.listed.append_left forgotten).trans
    (List.Perm.of_eq fitted.whole.symm)).trans records.listed
  oldest gone isGone other isKept := by
    have rising := oldest_first settings
    rw [fitted.whole] at rising
    exact (pairwise_append.mp rising).2.2 gone isGone other
      (fitted.listed.mem_iff.mp isKept)
  needed front back parts some_ := by
    have full := fitted.needed front back parts some_
    have distinct := nodup_removalsOf settings
    rw [fitted.whole, parts, append_assoc, map_append] at distinct
    have bytes := removalBytes_perm (fitted.listed.symm.append_left back)
      distinct.of_append_right
    rw [settingsBytes_withRemovals, bytes, ← settingsBytes_withRemovals] at full
    rw [fitted.same]
    exact full

/-- An account's id: 36 hexadecimal digits and dashes. -/
structure IsAccountId (text : Text) : Prop where
  length : text.length = 36
  units : ∀ unit ∈ text, unit = 45 ∨ (Script.hexDigit? unit).isSome = true
  dashed : 45 ∈ text

/-- Whether a unit is one of base64url. -/
def base64urlUnit (unit : UInt16) : Bool :=
  (65 ≤ unit.toNat && unit.toNat ≤ 90) || (97 ≤ unit.toNat && unit.toNat ≤ 122) ||
    (48 ≤ unit.toNat && unit.toNat ≤ 57) || unit = 45 || unit = 95

/-- A key of 32 bytes in base64url. -/
def IsKey (text : Text) : Prop :=
  text.length = 43 ∧ ∀ unit ∈ text, base64urlUnit unit = true

/-- A SHA-256 digest in hexadecimal. -/
def IsDigest (text : Text) : Prop :=
  text.length = 64 ∧ ∀ unit ∈ text, (Script.hexDigit? unit).isSome = true

/-- A field whose text passes a test. -/
def HasText (fields : List (Text × Value)) (name : String) (test : Text → Prop) : Prop :=
  ∃ text, (asciiText name, Value.string text) ∈ fields ∧ test text

/-- A pin whose four keys are well formed. -/
structure WellFormed (fields : List (Text × Value)) : Prop where
  encryption : HasText fields "encryptionPublicKey" IsKey
  signing : HasText fields "signingPublicKey" IsKey
  mlDsa : HasText fields "mlDsaPublicKeyHash" IsDigest
  kem : HasText fields "kemPublicKeyHash" IsDigest

/-- Whether a unit may stand in a time as `toISOString` writes it. -/
def timeUnit (unit : UInt16) : Bool :=
  (48 ≤ unit.toNat && unit.toNat ≤ 57) || unit = 45 || unit = 43 || unit = 58 ||
    unit = 46 || unit = 84 || unit = 90

/-- A time as `toISOString` writes it: 24 units, 27 for a year far away. -/
def IsoTime (text : Text) : Prop :=
  text.length ≤ 27 ∧ ∀ unit ∈ text, timeUnit unit = true

/-- An ASCII unit in lower case. -/
def lowerUnit (unit : UInt16) : UInt16 :=
  if 65 ≤ unit.toNat ∧ unit.toNat ≤ 90 then UInt16.ofNat (unit.toNat + 32) else unit

/-- What lower case is of ASCII. -/
def LowersAscii (toLowerCase : Text → Text) : Prop :=
  ∀ text : Text, (∀ unit ∈ text, unit.toNat < 128) →
    toLowerCase text = text.map lowerUnit

variable {time : Text}

theorem IsoTime.plain
    (isTime : IsoTime time) :
    ∀ unit ∈ time, Script.Plain unit := by
  intro unit member
  have among := isTime.2 unit member
  simp only [timeUnit, Bool.or_eq_true, Bool.and_eq_true, decide_eq_true_eq] at among
  rcases among with (((((digit | rfl) | rfl) | rfl) | rfl) | rfl) | rfl
  · have apart (other : UInt16) (outside : other.toNat < 48 ∨ 57 < other.toNat) :
        unit ≠ other := by
      rintro rfl
      omega
    exact ⟨by omega, by omega, apart 34 (by decide), apart 92 (by decide)⟩
  all_goals decide

theorem hexDigit_range
    {unit : UInt16}
    (digit : (Script.hexDigit? unit).isSome = true) :
    48 ≤ unit.toNat ∧ unit.toNat ≤ 57 ∨ 65 ≤ unit.toNat ∧ unit.toNat ≤ 70 ∨
      97 ≤ unit.toNat ∧ unit.toNat ≤ 102 := by
  rw [Script.hexDigit?] at digit
  split at digit
  · next decimal => exact .inl decimal
  · split at digit
    · next upper => exact .inr (.inl upper)
    · split at digit
      · next lower => exact .inr (.inr lower)
      · cases digit

theorem IsAccountId.ascii
    (isId : IsAccountId text) :
    ∀ unit ∈ text, unit.toNat < 128 := by
  intro unit member
  rcases isId.units unit member with rfl | digit
  · decide
  · have range := hexDigit_range digit
    omega

/-- An account id in lower case needs no escapes. -/
theorem IsAccountId.plain_lower
    (isId : IsAccountId text) :
    ∀ unit ∈ text.map lowerUnit, Script.Plain unit := by
  intro lowered listed
  obtain ⟨unit, member, rfl⟩ := mem_map.mp listed
  rcases isId.units unit member with rfl | digit
  · decide
  · have range := hexDigit_range digit
    have value : (lowerUnit unit).toNat =
        if 65 ≤ unit.toNat ∧ unit.toNat ≤ 90 then unit.toNat + 32 else unit.toNat := by
      rw [lowerUnit]
      split
      · rw [UInt16.toNat_ofNat']
        omega
      · rfl
    have inside : 48 ≤ (lowerUnit unit).toNat ∧ (lowerUnit unit).toNat ≤ 102 ∧
        (lowerUnit unit).toNat ≠ 92 := by
      rw [value]
      split
      · omega
      · omega
    have apart (other : UInt16) (outside : other.toNat < 48 ∨ other.toNat = 92) :
        lowerUnit unit ≠ other := by
      intro same
      rw [same] at inside
      omega
    exact ⟨by omega, by omega, apart 34 (by decide), apart 92 (by decide)⟩

theorem IsAccountId.index?_lower
    (isId : IsAccountId text) :
    Script.index? (text.map lowerUnit) = none :=
  Script.index?_eq_none (mem_map.mpr ⟨45, isId.dashed, rfl⟩) rfl

variable {key : Text}

/-- A removal takes no more bytes than the contact it removes. -/
theorem removalBytes_le
    {fields : List (Text × Value)}
    (isId : IsAccountId key)
    (wellFormed : WellFormed fields)
    (isTime : IsoTime time) :
    removalBytes [(key.map lowerUnit, time)] ≤
      Script.fieldBytes (key, .object fields) := by
  obtain ⟨digest, member, long, _⟩ := wellFormed.mlDsa
  have pin := Script.fieldBytes_le member
  have name : 18 + 2 ≤ _ := Script.length_le_bytes_quoted (asciiText "mlDsaPublicKeyHash")
  have value := Script.length_le_bytes_quoted digest
  have whose := Script.length_le_bytes_quoted key
  have removed := Script.bytes_quoted_plain isId.plain_lower
  have timed := Script.bytes_quoted_plain isTime.plain
  have length := isId.length
  have short := isTime.1
  have once : ([(key.map lowerUnit, time)].map Prod.fst).Nodup :=
    nodup_singleton _
  rw [length_map] at removed
  rw [removalBytes_eq (cons_ne_nil _ _) once, map_singleton, Script.fieldsBytes_cons, Script.fieldsBytes, map_nil, sum_nil, removalField]
  simp only [Script.fieldBytes, Script.write, removed, timed] at pin ⊢
  omega

theorem nodup_removalsBut
    (toLowerCase : Text → Text)
    (settings : Settings)
    (userId : Text) :
    ((removalsBut toLowerCase settings userId).map Prod.fst).Nodup :=
  (nodup_removalsOf settings).sublist (filter_sublist.map Prod.fst)

/-- What a document keeps when it is made to fit. -/
structure Keeps (settings next : Settings) : Prop where
  contacts : next.contacts = settings.contacts
  version : next.version = settings.version
  others : next.others = settings.others

theorem Fitted.keeps
    {held : List Removal}
    {settings : Settings}
    (fitted : Fitted held settings result forgotten kept) :
    Keeps settings result where
  contacts := (congrArg Settings.contacts (fitted.same []) :
    (result.withRemovals []).contacts = _)
  version := (congrArg Settings.version (fitted.same []) :
    (result.withRemovals []).version = _)
  others := (congrArg Settings.others (fitted.same []) :
    (result.withRemovals []).others = _)

theorem Fitted.bytes_of_full
    {held : List Removal}
    {settings : Settings}
    (fitted : Fitted held settings result forgotten kept)
    (full : SETTINGS_MAX_BYTES < settingsBytes result) :
    kept = [] ∧ SETTINGS_MAX_BYTES < settingsBytes (settings.withRemovals []) := by
  rcases fitted.fits with rfl | room
  · exact ⟨rfl, fitted.bytes ▸ full⟩
  · exact absurd full (not_lt.mpr room)

/-- What came of writing a pin. -/
structure Written (toLowerCase : Text → Text) (settings : Settings) (pin : Pin)
    (next : Settings) : Prop where
  fits : settingsBytes next ≤ SETTINGS_MAX_BYTES
  pinned : next.contacts.get? pin.userId = some pin.value
  contacts : ∀ key, key ≠ pin.userId →
    next.contacts.get? key = settings.contacts.get? key
  version : next.version = settings.version
  others : next.others = settings.others
  back : contactRemoved toLowerCase next pin.userId = false
  forgets : ∃ forgotten,
    Forgets (removalsBut toLowerCase settings pin.userId) next forgotten

variable {userId : Text}

theorem contactRemoved_of_forgets
    {settings next : Settings}
    (forgets : Forgets (removalsBut toLowerCase settings userId) next forgotten) :
    contactRemoved toLowerCase next userId = false := by
  refine any_eq_false.mpr fun removal listed isPerson => ?_
  have held := forgets.apart.mem_iff.mp (mem_append_right forgotten listed)
  exact of_decide_eq_true (mem_filter.mp held).2 (of_decide_eq_true isPerson)

/-- A pin is written with room made for it, or the contacts are full. -/
theorem settingsWithPin_cases
    (toLowerCase : Text → Text)
    (settings : Settings)
    (pin : Pin) :
    (∃ next, settingsWithPin toLowerCase settings pin = .ok next ∧
      Written toLowerCase settings pin next) ∨
    (settingsWithPin toLowerCase settings pin = .error CONTACTS_FULL ∧
      SETTINGS_MAX_BYTES < settingsBytes
        { settings with
          contacts := settings.contacts.set pin.userId pin.value
          removedContacts := .absent }) := by
  have records := @records_withRemovals
    { settings with contacts := settings.contacts.set pin.userId pin.value } _
    (nodup_removalsBut toLowerCase settings pin.userId)
  obtain ⟨forgotten, kept, fitted⟩ := exists_fitted records.itself
  have keeps := fitted.keeps
  have forgets := fitted.forgets records
  generalize made : settingsThatFit _ = next at fitted keeps forgets
  have answered : settingsWithPin toLowerCase settings pin =
      (refuseIf (SETTINGS_MAX_BYTES < settingsBytes next) CONTACTS_FULL >>=
        fun _ => .ok next) := by
    subst made
    rfl
  by_cases full : SETTINGS_MAX_BYTES < settingsBytes next
  · right
    refine ⟨?_, (fitted.bytes_of_full full).2⟩
    rw [answered, refuseIf, if_pos full]
    rfl
  · left
    refine ⟨next, ?_, not_lt.mp full, ?_, ?_, keeps.version, keeps.others,
      contactRemoved_of_forgets forgets, forgotten, forgets⟩
    · rw [answered, refuseIf, if_neg full]
      rfl
    · rw [keeps.contacts]
      exact (get?_set _ _ _ _).trans (if_pos rfl)
    · intro key other
      rw [keeps.contacts]
      exact (get?_set _ _ _ _).trans (if_neg other)

/-- The document with a person's contacts left out. -/
def Settings.without (toLowerCase : Text → Text) (settings : Settings) (userId : Text) :
    Settings :=
  { settings with
    contacts := settings.contacts.keep fun key => toLowerCase key ≠ toLowerCase userId }

theorem frameBytes_without_le
    (toLowerCase : Text → Text)
    (settings : Settings)
    (userId : Text) :
    frameBytes (settings.without toLowerCase userId) ≤ frameBytes settings := by
  have fewer := Script.bytes_object_le (@List.filter_sublist _
    (fun entry : Text × Value => decide (toLowerCase entry.1 ≠ toLowerCase userId))
    settings.contacts.entries)
  simp only [frameBytes, Script.fieldBytes, Settings.without, OrderedMap.keep]
  omega

theorem frameBytes_without
    {value : Value}
    (member : (key, value) ∈ settings.contacts.entries)
    (isPerson : toLowerCase key = toLowerCase userId) :
    frameBytes (settings.without toLowerCase userId) +
        Script.fieldBytes (key, value) ≤ frameBytes settings := by
  have fewer := @Script.bytes_object_filter _
    (fun entry : Text × Value => decide (toLowerCase entry.1 ≠ toLowerCase userId)) _
    member (decide_eq_false (not_not.mpr isPerson))
  generalize Script.fieldBytes (key, value) = bytes at fewer ⊢
  simp only [frameBytes, Script.fieldBytes, Settings.without, OrderedMap.keep]
  omega

/-- The newest removal is listed last. -/
theorem removalsOf_concat
    {settings : Settings}
    {removals : List Removal}
    {removal : Removal}
    (distinct : ((removals ++ [removal]).map Prod.fst).Nodup)
    (plain : Script.index? removal.1 = none)
    (newest : ∀ other ∈ removals, order other.2 ≤ order removal.2) :
    ∃ front, removalsOf (settings.withRemovals (removals ++ [removal])) =
      front ++ [removal] := by
  have recording : (settings.withRemovals (removals ++ [removal])).removedContacts =
      .record (objectOf ((removals ++ [removal]).map removalField)) := by
    cases removals with
    | nil => rfl
    | cons first rest => rfl
  have entries := Script.entries_objectOf (nodup_removalFields distinct)
  rw [map_append, map_singleton] at entries
  obtain ⟨front, listed⟩ := Script.entriesOf_concat entries plain
  have texts : textEntries (front ++ [removalField removal]) =
      textEntries front ++ [removal] :=
    filterMap_append
  have among : (textEntries front ++ [removal]).Perm (removals ++ [removal]) := by
    have whole := @removalsOf_withRemovals settings _ distinct
    rw [removalsOf, recording] at whole
    simp only [map_append, map_singleton, listed, texts] at whole
    exact Keyset.inOrder_perm.symm.trans whole
  have others := (perm_append_right_iff [removal]).mp among
  rw [removalsOf, recording]
  simp only [map_append, map_singleton, listed, texts]
  exact Keyset.inOrder_concat fun other member => newest other (others.mem_iff.mp member)

/-- What came of removing a contact. -/
structure Without (toLowerCase : Text → Text) (settings : Settings) (userId : Text)
    (held : List Removal) (next : Settings) (forgotten : List Removal) : Prop where
  fits : settingsBytes next ≤ SETTINGS_MAX_BYTES
  gone : ∀ key ∈ next.contacts.keys, toLowerCase key ≠ toLowerCase userId
  contacts : ∀ key, toLowerCase key ≠ toLowerCase userId →
    next.contacts.get? key = settings.contacts.get? key
  version : next.version = settings.version
  others : next.others = settings.others
  forgets : Forgets held next forgotten

theorem nodup_held
    (toLowerCase : Text → Text)
    (settings : Settings)
    (userId time : Text) :
    ((removalsBut toLowerCase settings userId ++
      [(toLowerCase userId, time)]).map Prod.fst).Nodup := by
  rw [map_append, map_singleton, ← concat_eq_append, nodup_concat]
  refine ⟨fun listed => ?_, nodup_removalsBut toLowerCase settings userId⟩
  obtain ⟨removal, member, same⟩ := mem_map.mp listed
  exact of_decide_eq_true (mem_filter.mp member).2 same

/-- Removing a contact forgets some removals and keeps the rest. -/
theorem exists_without
    (toLowerCase : Text → Text)
    (userId time : Text)
    (room : settingsBytes settings ≤ SETTINGS_MAX_BYTES) :
    ∃ forgotten kept,
      Fitted
        (removalsOf ((settings.without toLowerCase userId).withRemovals
          (removalsBut toLowerCase settings userId ++ [(toLowerCase userId, time)])))
        ((settings.without toLowerCase userId).withRemovals
          (removalsBut toLowerCase settings userId ++ [(toLowerCase userId, time)]))
        (settingsWithoutContact toLowerCase settings userId time) forgotten kept ∧
      Without toLowerCase settings userId
        (removalsBut toLowerCase settings userId ++ [(toLowerCase userId, time)])
        (settingsWithoutContact toLowerCase settings userId time) forgotten := by
  have records := @records_withRemovals (settings.without toLowerCase userId) _
    (nodup_held toLowerCase settings userId time)
  obtain ⟨forgotten, kept, fitted⟩ := exists_fitted records.itself
  have keeps := fitted.keeps
  refine ⟨forgotten, kept, fitted, ?_, ?_, ?_, keeps.version, keeps.others,
    fitted.forgets records⟩
  · by_contra full
    obtain ⟨_, over_⟩ := fitted.bytes_of_full (not_le.mp full)
    have less := frameBytes_without_le toLowerCase settings userId
    have bytes := settingsBytes_eq settings
    have none_ : removalBytes [] = 0 := rfl
    change SETTINGS_MAX_BYTES <
      settingsBytes ((settings.without toLowerCase userId).withRemovals []) at over_
    rw [settingsBytes_withRemovals, none_] at over_
    omega
  · intro key listed
    have kept := (congrArg (key ∈ OrderedMap.keys ·) keeps.contacts).mp listed
    have among := (congrArg (key ∈ ·) (keys_keep _ settings.contacts)).mp kept
    exact of_decide_eq_true (mem_filter.mp among).2
  · intro key other
    have test : decide (toLowerCase key ≠ toLowerCase userId) = true :=
      decide_eq_true other
    exact (congrArg (OrderedMap.get? · key) keeps.contacts).trans
      ((get?_keep _ _ _).trans (if_pos test))

/-- When the newest removal is forgotten every one is. -/
theorem eq_nil_of_last_forgotten
    {front : List Removal}
    {last : Removal}
    (distinct : (front ++ [last]).Nodup)
    (whole : front ++ [last] = forgotten ++ kept)
    (isForgotten : last ∈ forgotten) :
    kept = [] ∧ ∃ before, forgotten = before ++ [last] := by
  obtain ⟨before, after, rfl⟩ := append_of_mem isForgotten
  rcases eq_nil_or_concat (after ++ kept) with none_ | ⟨later, final, shape⟩
  · obtain ⟨rfl, rfl⟩ := append_eq_nil_iff.mp none_
    exact ⟨rfl, before, rfl⟩
  · rw [append_assoc before, cons_append, shape, concat_eq_append,
      ← cons_append, ← append_assoc] at whole
    rw [whole] at distinct
    have same := singleton_inj.mp (append_inj' whole rfl).2
    have twice := (nodup_append.mp distinct).2.2 last (by simp) final (by simp)
    exact absurd same twice

/-- The removal of a contact that was held is never forgotten. -/
theorem kept_of_newest
    {fields : List (Text × Value)}
    (lowers : LowersAscii toLowerCase)
    (room : settingsBytes settings ≤ SETTINGS_MAX_BYTES)
    (member : (key, Value.object fields) ∈ settings.contacts.entries)
    (isPerson : toLowerCase key = toLowerCase userId)
    (isId : IsAccountId key)
    (wellFormed : WellFormed fields)
    (isTime : IsoTime time)
    (newest : ∀ other ∈ removalsBut toLowerCase settings userId,
      order other.2 ≤ order time)
    (fitted : Fitted
      (removalsOf ((settings.without toLowerCase userId).withRemovals
        (removalsBut toLowerCase settings userId ++ [(toLowerCase userId, time)])))
      ((settings.without toLowerCase userId).withRemovals
        (removalsBut toLowerCase settings userId ++ [(toLowerCase userId, time)]))
      (settingsWithoutContact toLowerCase settings userId time) forgotten kept) :
    (toLowerCase userId, time) ∉ forgotten := by
  have lowered : toLowerCase userId = key.map lowerUnit := by
    rw [← isPerson, lowers key isId.ascii]
  have distinct := nodup_held toLowerCase settings userId time
  have plain : Script.index? (toLowerCase userId) = none := by
    rw [lowered]
    exact isId.index?_lower
  obtain ⟨front, last⟩ := @removalsOf_concat (settings.without toLowerCase userId) _
    (toLowerCase userId, time) distinct plain newest
  have whole := fitted.whole
  rw [last] at whole
  intro isForgotten
  have itself : kept = [] ∧ ∃ before, forgotten = before ++ [(toLowerCase userId, time)] := by
    refine eq_nil_of_last_forgotten ?_ whole isForgotten
    rw [← last]
    exact (nodup_removalsOf _).of_map
  obtain ⟨rfl, before, parts⟩ := itself
  have full := fitted.needed before [(toLowerCase userId, time)] parts
    (cons_ne_nil _ _)
  have bytes := settingsBytes_withRemovals (settings.without toLowerCase userId)
    [(toLowerCase userId, time)]
  have less := frameBytes_without member isPerson
  have removal := removalBytes_le isId wellFormed isTime
  have whole := settingsBytes_eq settings
  rw [lowered] at bytes full
  change SETTINGS_MAX_BYTES < settingsBytes ((settings.without toLowerCase userId).withRemovals
    [(key.map lowerUnit, time)]) at full
  omega

/--
Writing a pin and removing a contact keep a document within its room, forgetting
the oldest removals and no more than it takes, or refuse; and a removal just
recorded, if none is newer, is never forgotten.
-/
theorem settings_room
    (toLowerCase : Text → Text)
    (lowers : LowersAscii toLowerCase) :
    (∀ settings pin,
      (∃ next, settingsWithPin toLowerCase settings pin = .ok next ∧
        Written toLowerCase settings pin next) ∨
      (settingsWithPin toLowerCase settings pin = .error CONTACTS_FULL ∧
        SETTINGS_MAX_BYTES < settingsBytes
          { settings with
            contacts := settings.contacts.set pin.userId pin.value
            removedContacts := .absent })) ∧
    ∀ settings userId time, settingsBytes settings ≤ SETTINGS_MAX_BYTES →
      ∃ forgotten,
        Without toLowerCase settings userId
          (removalsBut toLowerCase settings userId ++ [(toLowerCase userId, time)])
          (settingsWithoutContact toLowerCase settings userId time) forgotten ∧
        ∀ key fields,
          (key, Value.object fields) ∈ settings.contacts.entries →
          toLowerCase key = toLowerCase userId →
          IsAccountId key →
          WellFormed fields →
          IsoTime time →
          (∀ other ∈ removalsBut toLowerCase settings userId,
            order other.2 ≤ order time) →
          (toLowerCase userId, time) ∉ forgotten ∧
            (toLowerCase userId, time) ∈
              removalsOf (settingsWithoutContact toLowerCase settings userId time) := by
  refine ⟨settingsWithPin_cases toLowerCase, ?_⟩
  intro settings userId time room
  obtain ⟨forgotten, kept, fitted, came⟩ := exists_without toLowerCase userId time room
  refine ⟨forgotten, came, ?_⟩
  intro key fields member isPerson isId wellFormed isTime newest
  have left_ := kept_of_newest lowers room member isPerson isId wellFormed isTime newest
    fitted
  have held := came.forgets.apart.mem_iff.mpr
    (mem_append_right _ (mem_singleton_self (toLowerCase userId, time)))
  exact ⟨left_, (mem_append.mp held).resolve_left left_⟩

def sampleId : Text :=
  asciiText "0B000000-0000-4000-8000-00000000000C"

def samplePin : Pin where
  userId := sampleId
  fields := [(asciiText "encryptionPublicKey", .string (List.replicate 43 65)),
    (asciiText "signingPublicKey", .string (List.replicate 43 65)),
    (asciiText "mlDsaPublicKeyHash", .string (List.replicate 64 48)),
    (asciiText "kemPublicKeyHash", .string (List.replicate 64 48))]

def sampleSettings : Settings where
  version := 2
  contacts := OrderedMap.empty.set sampleId samplePin.value
  removedContacts := .absent
  others := .empty

def sampleTime : Text :=
  asciiText "2026-01-01T00:00:00.000Z"

theorem isKey_sample : IsKey (List.replicate 43 65) :=
  ⟨length_replicate, fun unit member => by
    rw [eq_of_mem_replicate member]
    decide⟩

theorem isDigest_sample : IsDigest (List.replicate 64 48) :=
  ⟨length_replicate, fun unit member => by
    rw [eq_of_mem_replicate member]
    decide⟩

theorem wellFormed_samplePin :
    WellFormed ((asciiText "userId", .string sampleId) :: samplePin.fields) where
  encryption := ⟨_, by simp [samplePin], isKey_sample⟩
  signing := ⟨_, by simp [samplePin], isKey_sample⟩
  mlDsa := ⟨_, by simp [samplePin], isDigest_sample⟩
  kem := ⟨_, by simp [samplePin], isDigest_sample⟩

theorem isAccountId_sample : IsAccountId sampleId where
  length := rfl
  units unit member := by
    have each : sampleId.all (fun unit =>
        decide (unit = 45) || (Script.hexDigit? unit).isSome) = true := by decide
    simpa using all_eq_true.mp each unit member
  dashed := by decide

/-- One contact, removed at some time: the removal is kept. -/
theorem settings_room_sample :
    (sampleId.map lowerUnit, sampleTime) ∈
      removalsOf (settingsWithoutContact (List.map lowerUnit) sampleSettings sampleId
        sampleTime) := by
  have room : settingsBytes sampleSettings ≤ SETTINGS_MAX_BYTES := by decide +kernel
  have isTime : IsoTime sampleTime :=
    ⟨by decide, all_eq_true.mp (by decide : sampleTime.all timeUnit = true)⟩
  have member : (sampleId, samplePin.value) ∈ sampleSettings.contacts.entries :=
    mem_cons_self
  have alone : removalsBut (List.map lowerUnit) sampleSettings sampleId = [] := rfl
  obtain ⟨forgotten, _, kept⟩ := (settings_room (List.map lowerUnit) fun _ _ => rfl).2
    sampleSettings sampleId sampleTime room
  refine (kept sampleId _ member rfl isAccountId_sample wellFormed_samplePin isTime ?_).2
  rw [alone]
  exact nofun

end Contacts

end HushOS
