import HushOS.Content.Ambiguity
import HushOS.Toolkit.Rounding
import HushOS.Toolkit.ScriptObject
import HushOS.Worker.SplitKeys

namespace HushOS

open Toolkit List OrderedMap

namespace Content

/-!
# A node's metadata, sealed and opened

A node's name and details are one JSON object, cleaned, padded and sealed under
the node's key.  What is sealed is clean, so a reader takes it: no key stands
twice in it, no string of it holds a lone surrogate, and what the reader checks
was checked before.
-/

open Script (Text Value asciiText objectOf textOf entries_objectOf)
open Worker (Vault Key toyVault)

def NAME_MAX_CODE_POINTS : Nat := 255

def METADATA_MAX_BYTES : Nat := 4096

def METADATA_PAD_STEP : Nat := 256

def ATTRIBUTES_MAX_KEYS : Nat := 32

/-- What attributes are given as: a plain object's values are text or not. -/
inductive GivenAttributes where
  | absent
  | record (fields : OrderedMap Text (Option Text))
  | other

/-- A record as it is given: text, and a whole number, where it is one. -/
structure GivenMetadata where
  name : Option Text
  mime : Option Text
  size : Option Int
  modified : Option Text
  attributes : GivenAttributes

/-- A node's record, with no attributes where the field is absent. -/
structure NodeMetadata where
  name : Text
  mime : Option Text
  size : Option Nat
  modified : Option Text
  attributes : OrderedMap Text Text
  deriving DecidableEq

/-- Where a node's metadata is sealed. -/
structure MetadataContext where
  workspaceId : String
  nodeId : String
  metadataVersion : Nat
  deriving DecidableEq, Repr

def NOT_READ : CryptoError :=
  ⟨"This item could not be opened. It may be damaged."⟩

/-- Whether a character is a control character. -/
def isControl (char : Char) : Bool :=
  char.toNat < 0x20 || char.toNat = 0x7f

/-- A name an item can have. -/
def checkName (given : Option Text) : Except CryptoError Text :=
  match given with
  | none => .error ⟨"Enter a name."⟩
  | some name => do
      let points := (Script.chars name).length
      refuseIf (points < 1) ⟨"Enter a name."⟩
      refuseIf (NAME_MAX_CODE_POINTS < points)
        ⟨"Use a name of at most 255 characters."⟩
      refuseIf (name = asciiText "." ∨ name = asciiText ".." ∨
          Script.unit '/' ∈ name)
        ⟨"Names cannot contain \"/\" or be \".\" or \"..\"."⟩
      -- Sealed, it would be written as an escape no reader opens.
      refuseIf (Script.lone name = true)
        ⟨"This name has a character that can’t be saved. Type the name again."⟩
      refuseIf ((Script.chars name).any isControl = true)
        ⟨"Names cannot contain control characters."⟩
      .ok name

/-- Whether a unit may begin an attribute's key. -/
def beginsKey (unit : UInt16) : Bool :=
  97 ≤ unit.toNat && unit.toNat ≤ 122

/-- Whether a unit may stand in an attribute's key. -/
def withinKey (unit : UInt16) : Bool :=
  beginsKey unit || (48 ≤ unit.toNat && unit.toNat ≤ 57) || unit = 95 || unit = 45

/-- `ATTRIBUTE_KEY`: a letter, then at most 31 of letters, digits, `_` and `-`. -/
def attributeKey : Text → Bool
  | [] => false
  | first :: rest => beginsKey first && rest.all withinKey && rest.length ≤ 31

/-- An attribute's value: text without a lone surrogate. -/
def attributeText (given : Option Text) : Except CryptoError Text :=
  match given with
  | none => .error ⟨"An attribute must be text."⟩
  | some text => do
      refuseIf (Script.lone text = true) ⟨"An attribute must be text."⟩
      .ok text

/-- The loop of `checkAttributes`, over the fields in the order of their keys. -/
def checkFields :
    List (Text × Option Text) →
    OrderedMap Text Text →
    Except CryptoError (OrderedMap Text Text)
  | [], out => .ok out
  | (key, given) :: rest, out => do
      refuseIf (attributeKey key = false) ⟨"Invalid attribute name."⟩
      let text ← attributeText given
      checkFields rest (out.set key text)

/-- A field by its key, as `sort` compares it. -/
def keyUnits (field : Text × α) : List Nat :=
  Script.order field.1

/-- A node's attributes as sealed, within their limits and with their keys sorted. -/
def checkAttributes (given : GivenAttributes) :
    Except CryptoError (OrderedMap Text Text) :=
  match given with
  | .absent => .ok .empty
  | .other => .error ⟨"Invalid attributes."⟩
  | .record fields => do
      refuseIf (ATTRIBUTES_MAX_KEYS < fields.size)
        ⟨"An item can have at most 32 attributes."⟩
      checkFields (Keyset.inOrder keyUnits fields.entries) .empty

/-- Text of at most some units. -/
def capped (most : Nat) (given : Option Text) : Option Text :=
  given.filter fun text => text.length ≤ most

/-- A size that is counted exactly and not below zero.  Minus zero is zero. -/
def cleanSize (given : Option Int) : Option Nat :=
  match given with
  | none => none
  | some size => if 0 ≤ size ∧ size ≤ maxSafe then some size.toNat else none

/-- The record `sealMetadata` writes. -/
def cleanMetadata (given : GivenMetadata) : Except CryptoError NodeMetadata := do
  let attributes ← checkAttributes given.attributes
  refuseIf (∃ text ∈ given.mime.toList ++ given.modified.toList,
      Script.lone text = true)
    ⟨"This item has details that can’t be saved."⟩
  let name ← checkName given.name
  .ok {
    name := name
    mime := capped 255 given.mime
    size := cleanSize given.size
    modified := capped 64 given.modified
    attributes := attributes
  }

/-- A field's text, or null. -/
def textOrNull : Option Text → Value
  | none => .null
  | some text => .string text

/-- The JSON of attributes, none of them being no field at all. -/
def attributeFields (attributes : OrderedMap Text Text) : List (Text × Value) :=
  if attributes.size = 0 then
    []
  else
    [(asciiText "attributes", .object (attributes.mapValues Value.string).entries)]

/-- A field's natural, or null. -/
def naturalOrNull : Option Nat → Value
  | none => .null
  | some natural => .number (Script.Number.ofNat natural)

/-- The fields of a record. -/
def NodeMetadata.fields (metadata : NodeMetadata) : List (Text × Value) :=
  (asciiText "name", .string metadata.name) ::
    (asciiText "mime", textOrNull metadata.mime) ::
    (asciiText "size", naturalOrNull metadata.size) ::
    (asciiText "modified", textOrNull metadata.modified) ::
    attributeFields metadata.attributes

/-- The JSON of a record. -/
def NodeMetadata.value (metadata : NodeMetadata) : Value :=
  .object metadata.fields

/-- A plaintext with spaces up to a step, if there is room. -/
def padded (plaintext : Bytes) (step most : Nat) : Bytes :=
  let target := min (Rounding.roundUp step plaintext.length) most
  if target ≤ plaintext.length then
    plaintext
  else
    plaintext ++ List.replicate (target - plaintext.length) 0x20

/-- The associated data of a node's metadata. -/
def metadataContext (ctx : MetadataContext) : Except CryptoError Bytes := do
  let workspaceId ← Worker.contextId ctx.workspaceId "workspace id"
  let nodeId ← Worker.contextId ctx.nodeId "node id"
  let metadataVersion ← Worker.contextEpoch ctx.metadataVersion "metadata version"
  .ok (Utf8.encode (Json.compact (.list
    [.text "hushos/drive/node-meta", .number Worker.DRIVE_ENVELOPE_SUITE,
      workspaceId, nodeId, metadataVersion])))

/-- A nonce, of random bytes. -/
abbrev Nonce := { bytes : Bytes // bytes.length = Worker.ENVELOPE_NONCE_BYTES }

/-- A value that is a safe natural. -/
def naturalOf : Value → Option Nat
  | .number number => number.natural?
  | _ => none

/-- The attributes of an object that was parsed. -/
def parsedAttributes (given : Option Value) : GivenAttributes :=
  match given with
  | none => .absent
  | some (.object fields) => .record ((objectOf fields).mapValues textOf)
  | some _ => .other

/-- The object a plaintext is the JSON of, if it reads one way only. -/
def readObject (plaintext : Bytes) : Option (OrderedMap Text Value) := do
  let text ← Script.decode plaintext
  let value ← Script.parse text
  if ambiguousJson text then
    none
  else
    match value with
    | .object fields => some (objectOf fields)
    | _ => none

/-- The record a plaintext holds. -/
def readMetadata (plaintext : Bytes) : Except CryptoError NodeMetadata :=
  match readObject plaintext with
  | none => .error NOT_READ
  | some object =>
    match checkAttributes (parsedAttributes (object.get? (asciiText "attributes"))) with
    -- Refused whole, never trimmed.
    | .error _ => .error NOT_READ
    | .ok attributes => do
        let name ← checkName ((object.get? (asciiText "name")).bind textOf)
        .ok {
          name := name
          mime := (object.get? (asciiText "mime")).bind textOf
          size := (object.get? (asciiText "size")).bind naturalOf
          modified := (object.get? (asciiText "modified")).bind textOf
          attributes := attributes
        }

section Sealing

variable (V : Vault)

/-- A plaintext sealed under a key, its nonce before it. -/
def sealBytes (nonce : Nonce) (plaintext : Bytes) (key : Key) (aad : Bytes) :
    Except CryptoError Bytes := do
  refuseIf (key.length ≠ Worker.KEY_BYTES) ⟨"invalid key length"⟩
  .ok (nonce.val ++ V.encrypt plaintext key nonce.val aad)

/-- A record sealed under its node's key. -/
def sealMetadata
    (nonce : Nonce)
    (metadata : GivenMetadata)
    (nodeKey : Key)
    (ctx : MetadataContext) :
    Except CryptoError Bytes := do
  let clean ← cleanMetadata metadata
  let plaintext := Script.encode (Script.write clean.value)
  refuseIf (METADATA_MAX_BYTES < plaintext.length)
    (if clean.attributes.size = 0 then
      ⟨"This name is too long."⟩
    else
      ⟨"This name and its attributes are too long to save."⟩)
  let aad ← metadataContext ctx
  sealBytes V nonce (padded plaintext METADATA_PAD_STEP METADATA_MAX_BYTES)
    nodeKey aad

/-- The record an envelope holds. -/
def openMetadata (envelope : Bytes) (nodeKey : Key) (ctx : MetadataContext) :
    Except CryptoError NodeMetadata := do
  refuseIf
    (envelope.length ≤ Worker.ENVELOPE_NONCE_BYTES + Worker.CHUNK_TAG_BYTES)
    Worker.DAMAGED
  let nonce := envelope.take Worker.ENVELOPE_NONCE_BYTES
  let body := envelope.drop Worker.ENVELOPE_NONCE_BYTES
  refuseIf (METADATA_MAX_BYTES + Worker.CHUNK_TAG_BYTES < body.length) Worker.DAMAGED
  let aad ← metadataContext ctx
  match V.decrypt body nodeKey nonce aad with
  | none => .error NOT_READ
  | some plaintext => readMetadata plaintext

end Sealing

theorem checkName_ok
    {given : Option Text}
    {name : Text}
    (passed : checkName given = .ok name) :
    given = some name ∧ Script.lone name = false := by
  cases given with
  | none => cases passed
  | some text =>
    simp only [checkName, bind_eq_ok, exists_unit, refuseIf_eq_ok,
      Bool.not_eq_true] at passed
    obtain ⟨_, _, _, paired, _, made⟩ := passed
    cases made
    exact ⟨rfl, paired⟩

/-- Attributes that pass: few, named by the rule, text, and in order. -/
structure CleanAttributes (attributes : OrderedMap Text Text) : Prop where
  few : attributes.size ≤ ATTRIBUTES_MAX_KEYS
  named : ∀ field ∈ attributes.entries, attributeKey field.1 = true
  paired : ∀ field ∈ attributes.entries, Script.lone field.2 = false
  sorted : attributes.entries.Pairwise fun first second =>
    keyUnits first ≤ keyUnits second

theorem apart_set
    {fields : List (Text × α)}
    {out : OrderedMap Text Text}
    {key text : Text}
    (new : key ∉ fields.map Prod.fst)
    (apart : ∀ field ∈ fields, field.1 ∉ out.keys) :
    ∀ field ∈ fields, field.1 ∉ (out.set key text).keys := by
  intro field member listed
  rcases mem_keys_set.mp listed with same | before
  · exact new (mem_map.mpr ⟨field, member, same⟩)
  · exact apart field member before

variable {attributes : OrderedMap Text Text}

/-- Fields that pass are added in order, clean and distinct. -/
theorem checkFields_ok
    {fields : List (Text × Option Text)}
    {out : OrderedMap Text Text}
    (distinct : (fields.map Prod.fst).Nodup)
    (apart : ∀ field ∈ fields, field.1 ∉ out.keys)
    (passed : checkFields fields out = .ok attributes) :
    ∃ added : List (Text × Text),
      attributes.entries = out.entries ++ added ∧
      fields = added.map (fun field => (field.1, some field.2)) ∧
      ∀ field ∈ added, attributeKey field.1 = true ∧ Script.lone field.2 = false := by
  induction fields generalizing out with
  | nil =>
    cases passed
    exact ⟨[], (append_nil _).symm, rfl, nofun⟩
  | cons field rest inductionHypothesis =>
    obtain ⟨key, given⟩ := field
    simp only [checkFields, bind_eq_ok, exists_unit, refuseIf_eq_ok,
      Bool.not_eq_false] at passed
    obtain ⟨isKey, text, isText, passed⟩ := passed
    rw [map_cons, nodup_cons] at distinct
    have new : key ∉ out.keys := apart (key, given) mem_cons_self
    have entries := @OrderedMap.entries_set_of_new _ _ _ out key text new
    have apartRest := @apart_set _ _ out key text distinct.1 fun field member =>
      apart field (mem_cons_of_mem _ member)
    obtain ⟨added, whole, shape, clean⟩ :=
      inductionHypothesis distinct.2 apartRest passed
    cases given with
    | none => cases isText
    | some value =>
      simp only [attributeText, bind_eq_ok, exists_unit, refuseIf_eq_ok,
        Bool.not_eq_true] at isText
      obtain ⟨paired, made⟩ := isText
      cases made
      refine ⟨(key, text) :: added, ?_, by rw [shape]; rfl, ?_⟩
      · rw [whole, entries, append_assoc]
        rfl
      · intro field member
        rcases mem_cons.mp member with rfl | later
        · exact ⟨isKey, paired⟩
        · exact clean field later

/-- Attributes that pass the check are clean. -/
theorem cleanAttributes_of_ok
    {given : GivenAttributes}
    (passed : checkAttributes given = .ok attributes) :
    CleanAttributes attributes := by
  cases given with
  | absent =>
    cases passed
    exact ⟨Nat.zero_le _, nofun, nofun, List.Pairwise.nil⟩
  | other => cases passed
  | record fields =>
    simp only [checkAttributes, bind_eq_ok, exists_unit, refuseIf_eq_ok,
      not_lt] at passed
    obtain ⟨few, passed⟩ := passed
    have reordered : (Keyset.inOrder keyUnits fields.entries).Perm fields.entries :=
      Keyset.inOrder_perm
    have distinct : ((Keyset.inOrder keyUnits fields.entries).map Prod.fst).Nodup :=
      (reordered.map Prod.fst).nodup_iff.mpr fields.nodup
    obtain ⟨added, whole, shape, clean⟩ :=
      checkFields_ok distinct (fun _ _ => not_mem_nil) passed
    rw [OrderedMap.empty, nil_append] at whole
    have length : added.length = fields.size := by
      rw [OrderedMap.size, ← reordered.length_eq, shape, length_map]
    have rising := @Keyset.rising_inOrder _ _ _ (keyUnits (α := Option Text))
      fields.entries
    rw [shape, pairwise_map] at rising
    rw [← whole] at clean length rising
    exact ⟨length.le.trans few, fun field member => (clean field member).1,
      fun field member => (clean field member).2, rising⟩

/-- Clean fields of distinct names pass and are added in order. -/
theorem checkFields_clean
    {fields : List (Text × Text)}
    {out : OrderedMap Text Text}
    (clean : ∀ field ∈ fields,
      attributeKey field.1 = true ∧ Script.lone field.2 = false)
    (distinct : (fields.map Prod.fst).Nodup)
    (apart : ∀ field ∈ fields, field.1 ∉ out.keys) :
    ∃ attributes,
      checkFields (fields.map fun field => (field.1, some field.2)) out =
        .ok attributes ∧
      attributes.entries = out.entries ++ fields := by
  induction fields generalizing out with
  | nil => exact ⟨out, rfl, (append_nil _).symm⟩
  | cons field rest inductionHypothesis =>
    obtain ⟨key, text⟩ := field
    obtain ⟨isKey, paired⟩ := clean (key, text) mem_cons_self
    rw [map_cons, nodup_cons] at distinct
    have new : key ∉ out.keys := apart (key, text) mem_cons_self
    have entries := @OrderedMap.entries_set_of_new _ _ _ out key text new
    have apartRest := @apart_set _ _ out key text distinct.1 fun field member =>
      apart field (mem_cons_of_mem _ member)
    obtain ⟨attributes, passed, whole⟩ := inductionHypothesis
      (fun field member => clean field (mem_cons_of_mem _ member))
      distinct.2 apartRest
    refine ⟨attributes, ?_, ?_⟩
    · simp only [map_cons, checkFields, attributeText, isKey, paired]
      exact passed
    · rw [whole, entries, append_assoc]
      rfl

/-- Clean attributes pass the check unchanged. -/
theorem checkAttributes_clean
    (clean : CleanAttributes attributes) :
    checkAttributes (.record (attributes.mapValues some)) = .ok attributes := by
  have few : ¬ ATTRIBUTES_MAX_KEYS < (attributes.mapValues some).size := by
    rw [OrderedMap.size, OrderedMap.mapValues, length_map]
    exact not_lt.mpr clean.few
  have rising : (attributes.mapValues some).entries.Pairwise fun first second =>
      keyUnits first ≤ keyUnits second :=
    pairwise_map.mpr clean.sorted
  obtain ⟨passed, ran, whole⟩ := @checkFields_clean attributes.entries .empty
    (fun field member => ⟨clean.named field member, clean.paired field member⟩)
    attributes.nodup (fun _ _ => not_mem_nil)
  have same : passed = attributes := OrderedMap.ext whole
  rw [same] at ran
  rw [checkAttributes, refuseIf, if_neg few, Keyset.inOrder_of_rising rising]
  exact ran

/-- A record that `sealMetadata` writes as it is. -/
structure NodeMetadata.Clean (metadata : NodeMetadata) : Prop where
  name : checkName (some metadata.name) = .ok metadata.name
  mime : ∀ text ∈ metadata.mime, Script.lone text = false ∧ text.length ≤ 255
  size : ∀ size ∈ metadata.size, size ≤ maxSafe
  modified : ∀ text ∈ metadata.modified,
    Script.lone text = false ∧ text.length ≤ 64
  attributes : CleanAttributes metadata.attributes

/-- A record as it is given to `sealMetadata`. -/
def NodeMetadata.given (metadata : NodeMetadata) : GivenMetadata where
  name := some metadata.name
  mime := metadata.mime
  size := metadata.size.map Int.ofNat
  modified := metadata.modified
  attributes :=
    if metadata.attributes.size = 0 then
      .absent
    else
      .record (metadata.attributes.mapValues some)

variable {text : Text}

theorem mem_capped
    {given : Option Text}
    {most : Nat} :
    text ∈ capped most given ↔ text ∈ given ∧ text.length ≤ most := by
  simp [capped, Option.filter_eq_some_iff]

variable {metadata : NodeMetadata}

/-- Metadata that was cleaned is clean. -/
theorem clean_of_cleanMetadata
    {given : GivenMetadata}
    (cleaned : cleanMetadata given = .ok metadata) :
    metadata.Clean := by
  simp only [cleanMetadata, bind_eq_ok, exists_unit, refuseIf_eq_ok, not_exists,
    not_and, Bool.not_eq_true] at cleaned
  obtain ⟨attributes, isAttributes, paired, name, isName, made⟩ := cleaned
  cases made
  obtain ⟨isGiven, _⟩ := checkName_ok isName
  refine ⟨?_, ?_, ?_, ?_, cleanAttributes_of_ok isAttributes⟩
  · rw [isGiven] at isName
    exact isName
  · intro text member
    obtain ⟨isMime, within⟩ := mem_capped.mp member
    exact ⟨paired text (mem_append_left _ (Option.mem_toList.mpr isMime)), within⟩
  · intro size member
    simp only [cleanSize] at member
    split at member
    · cases member
    · split at member
      · next range =>
          cases member
          omega
      · cases member
  · intro text member
    obtain ⟨isModified, within⟩ := mem_capped.mp member
    exact ⟨paired text (mem_append_right _ (Option.mem_toList.mpr isModified)),
      within⟩

theorem capped_of_le
    {given : Option Text}
    {most : Nat}
    (within : ∀ text ∈ given, text.length ≤ most) :
    capped most given = given := by
  cases given with
  | none => rfl
  | some text => exact Option.filter_some_pos (decide_eq_true (within text rfl))

/-- Clean metadata given again is cleaned to itself. -/
theorem cleanMetadata_given
    (clean : metadata.Clean) :
    cleanMetadata metadata.given = .ok metadata := by
  obtain ⟨name, mime, size, modified, attributes⟩ := metadata
  have isAttributes : checkAttributes
      (if attributes.size = 0 then .absent
        else .record (attributes.mapValues some)) = .ok attributes := by
    split
    · next none_ =>
        have empty : attributes = .empty :=
          OrderedMap.ext (length_eq_zero_iff.mp none_)
        rw [empty]
        rfl
    · exact checkAttributes_clean clean.attributes
  have isSize : cleanSize (size.map Int.ofNat) = size := by
    cases size with
    | none => rfl
    | some size =>
      have range : 0 ≤ Int.ofNat size ∧ Int.ofNat size ≤ maxSafe :=
        ⟨Int.natCast_nonneg size, Int.ofNat_le.mpr (clean.size size rfl)⟩
      exact if_pos range
  have paired : ¬ ∃ text ∈ mime.toList ++ modified.toList,
      Script.lone text = true := by
    rintro ⟨text, member, alone⟩
    rcases mem_append.mp member with isMime | isModified
    · have paired := (clean.mime text (Option.mem_toList.mp isMime)).1
      exact Bool.false_ne_true (paired.symm.trans alone)
    · have paired := (clean.modified text (Option.mem_toList.mp isModified)).1
      exact Bool.false_ne_true (paired.symm.trans alone)
  have isMime : capped 255 mime = mime :=
    capped_of_le fun text member => (clean.mime text member).2
  have isModified : capped 64 modified = modified :=
    capped_of_le fun text member => (clean.modified text member).2
  have isName : checkName (some name) = .ok name := clean.name
  simp only [cleanMetadata, NodeMetadata.given, isAttributes, ok_bind, refuseIf,
    if_neg paired, isName, isMime, isSize, isModified]

theorem lone_attributeKey
    {key : Text}
    (isKey : attributeKey key = true) :
    Script.lone key = false := by
  have below : ∀ unit ∈ key, unit.toNat < 0xD800 := by
    cases key with
    | nil => exact nofun
    | cons first rest =>
      simp only [attributeKey, Bool.and_eq_true, all_eq_true, withinKey,
        beginsKey, Bool.or_eq_true, decide_eq_true_eq] at isKey
      obtain ⟨⟨begins, within⟩, _⟩ := isKey
      intro unit member
      rcases mem_cons.mp member with rfl | later
      · omega
      · rcases within unit later with ((letter | digit) | rfl) | rfl
        · omega
        · omega
        · decide
        · decide
  exact (Script.complete_all_below below).lone_eq

theorem objectsOfFields_text (fields : List (Text × Text)) :
    Script.objectsOfFields (fields.map fun field => (field.1, Value.string field.2)) =
      [] := by
  induction fields with
  | nil => rfl
  | cons field rest inductionHypothesis => exact inductionHypothesis

theorem mem_stringsOfFields_text
    {fields : List (Text × Text)}
    (held : text ∈ Script.stringsOfFields
      (fields.map fun field => (field.1, Value.string field.2))) :
    ∃ field ∈ fields, text = field.1 ∨ text = field.2 := by
  induction fields with
  | nil => cases held
  | cons field rest inductionHypothesis =>
    rcases mem_cons.mp held with isKey | held
    · exact ⟨field, mem_cons_self, .inl isKey⟩
    · rcases mem_cons.mp held with isValue | held
      · exact ⟨field, mem_cons_self, .inr isValue⟩
      · obtain ⟨field, member, isText⟩ := inductionHypothesis held
        exact ⟨field, mem_cons_of_mem _ member, isText⟩

theorem keys_fields (metadata : NodeMetadata) :
    metadata.fields.map Prod.fst =
      asciiText "name" :: asciiText "mime" :: asciiText "size" ::
        asciiText "modified" ::
        (if metadata.attributes.size = 0 then [] else [asciiText "attributes"]) := by
  rw [NodeMetadata.fields, attributeFields]
  split
  · rfl
  · rfl

theorem nodup_fields (metadata : NodeMetadata) :
    (metadata.fields.map Prod.fst).Nodup := by
  rw [keys_fields]
  split
  · decide
  · decide

/-- Written metadata names no key twice. -/
theorem not_repeats_value (metadata : NodeMetadata) :
    ¬ Repeats metadata.value.objects := by
  have text (given : Option Text) : (textOrNull given).objects = [] := by
    cases given with
    | none => rfl
    | some text => rfl
  have natural (given : Option Nat) : (naturalOrNull given).objects = [] := by
    cases given with
    | none => rfl
    | some natural => rfl
  rintro ⟨keys, member, repeated⟩
  rw [NodeMetadata.value, Value.objects, mem_cons] at member
  rcases member with rfl | inside
  · exact repeated (nodup_fields metadata)
  · rw [NodeMetadata.fields] at inside
    simp only [Script.objectsOfFields, text, natural, nil_append,
      Value.objects] at inside
    rw [attributeFields] at inside
    split at inside
    · cases inside
    · simp only [Script.objectsOfFields, Value.objects, append_nil,
        OrderedMap.mapValues, objectsOfFields_text, mem_singleton,
        map_map] at inside
      rw [inside] at repeated
      exact repeated metadata.attributes.nodup

/-- Written metadata holds no lone surrogate. -/
theorem not_holdsLone_value
    (clean : metadata.Clean) :
    ¬ HoldsLone metadata.value.strings := by
  have isText (given : Option Text) (paired : ∀ text ∈ given, Script.lone text = false) :
      ∀ text ∈ (textOrNull given).strings, Script.lone text = false := by
    cases given with
    | none => exact nofun
    | some text =>
      intro other member
      rw [mem_singleton.mp member]
      exact paired text rfl
  have natural (given : Option Nat) : (naturalOrNull given).strings = [] := by
    cases given with
    | none => rfl
    | some natural => rfl
  rintro ⟨text, member, alone⟩
  suffices paired : Script.lone text = false from
    Bool.false_ne_true (paired.symm.trans alone)
  rw [NodeMetadata.value, Value.strings, NodeMetadata.fields] at member
  simp only [Script.stringsOfFields, natural, nil_append, Value.strings,
    mem_cons, mem_append, not_mem_nil, or_false] at member
  rcases member with rfl | rfl | rfl | isMime | rfl | rfl | isModified | member
  · decide
  · exact (checkName_ok clean.name).2
  · decide
  · exact isText _ (fun text member => (clean.mime text member).1) text isMime
  · decide
  · decide
  · exact isText _ (fun text member => (clean.modified text member).1) text isModified
  · rw [attributeFields] at member
    split at member
    · cases member
    · rw [Script.stringsOfFields, Script.stringsOfFields, append_nil] at member
      rcases mem_cons.mp member with rfl | held
      · decide
      · rw [Value.strings, OrderedMap.mapValues] at held
        obtain ⟨field, listed, isKey | isValue⟩ := mem_stringsOfFields_text held
        · rw [isKey]
          exact lone_attributeKey (clean.attributes.named field listed)
        · rw [isValue]
          exact clean.attributes.paired field listed

theorem encode_blanks (count : Nat) :
    Script.encode (Script.Gap.text (List.replicate count .blank)) =
      List.replicate count 0x20 := by
  induction count with
  | zero => rfl
  | succ count inductionHypothesis =>
    have blank : Script.Complete [32] := Script.complete_below (by decide)
    have whole := blank.encode
      (Script.Gap.text (List.replicate count .blank))
    rw [inductionHypothesis] at whole
    rw [replicate_succ, replicate_succ]
    exact whole

theorem exists_gap_padded
    (complete : Script.Complete text)
    (step most : Nat) :
    ∃ gap : Script.Gap,
      padded (Script.encode text) step most = Script.encode (text ++ gap.text) := by
  rw [padded]
  split
  · refine ⟨[], ?_⟩
    rw [Script.Gap.text, map_nil, append_nil]
  · let length := (Script.encode text).length
    refine ⟨List.replicate (min (Rounding.roundUp step length) most - length) .blank,
      ?_⟩
    rw [complete.encode, encode_blanks]

theorem complete_gap (gap : Script.Gap) : Script.Complete gap.text :=
  Script.complete_all_below fun unit member => by
    obtain ⟨space, _, rfl⟩ := mem_map.mp member
    cases space with
    | _ => decide

theorem length_padded
    {plaintext : Bytes}
    {step most : Nat}
    (within : plaintext.length ≤ most) :
    plaintext.length ≤ (padded plaintext step most).length ∧
      (padded plaintext step most).length ≤ most := by
  rw [padded]
  split
  · exact ⟨Nat.le_refl _, within⟩
  · simp only [length_append, length_replicate]
    omega

theorem readObject_padded
    (clean : metadata.Clean)
    (step most : Nat) :
    readObject (padded (Script.encode (Script.write metadata.value)) step most) =
      some (objectOf metadata.fields) := by
  have complete := Script.complete_write metadata.value
  obtain ⟨gap, plaintext⟩ := exists_gap_padded complete step most
  have decoded := Script.decode_encode (complete.append (complete_gap gap)).lone_eq
  have parsed := Script.parse_write metadata.value gap
  have oneWay : ¬ ambiguousJson (Script.write metadata.value ++ gap.text) = true := by
    rw [ambiguousJson_of_parse parsed, not_or]
    exact ⟨not_repeats_value metadata, not_holdsLone_value clean⟩
  rw [readObject, plaintext, decoded]
  simp only [bind, Option.bind, parsed, if_neg oneWay]
  rfl

theorem textOf_textOrNull (given : Option Text) : textOf (textOrNull given) = given := by
  cases given with
  | none => rfl
  | some text => rfl

theorem naturalOf_naturalOrNull
    {given : Option Nat}
    (safe : ∀ natural ∈ given, natural ≤ maxSafe) :
    naturalOf (naturalOrNull given) = given := by
  cases given with
  | none => rfl
  | some natural => exact Script.natural?_ofNat (safe natural rfl)

/-- Attributes read back from their fields pass unchanged. -/
theorem checkAttributes_parsed
    (clean : CleanAttributes attributes) :
    checkAttributes (parsedAttributes
      (OrderedMap.lookupIn (asciiText "attributes") (attributeFields attributes))) =
      .ok attributes := by
  rw [attributeFields]
  split
  · next none_ =>
      have empty : attributes = .empty :=
        OrderedMap.ext (length_eq_zero_iff.mp none_)
      rw [empty]
      rfl
  · have fields : objectOf (attributes.mapValues Value.string).entries =
        attributes.mapValues Value.string :=
      OrderedMap.ext (entries_objectOf (attributes.mapValues Value.string).nodup)
    have text : (attributes.mapValues Value.string).mapValues textOf =
        attributes.mapValues some := by
      refine OrderedMap.ext ?_
      simp only [OrderedMap.mapValues, map_map, Function.comp_def, textOf]
    rw [OrderedMap.lookupIn, if_pos rfl, parsedAttributes, fields, text]
    exact checkAttributes_clean clean

/-- Padded metadata is read back as it was written. -/
theorem readMetadata_padded
    (clean : metadata.Clean)
    (step most : Nat) :
    readMetadata (padded (Script.encode (Script.write metadata.value)) step most) =
      .ok metadata := by
  have object := entries_objectOf (nodup_fields metadata)
  have found (key : Text) : (objectOf metadata.fields).get? key =
      OrderedMap.lookupIn key metadata.fields := by
    rw [OrderedMap.get?, object]
  have name : OrderedMap.lookupIn (asciiText "name") metadata.fields =
      some (.string metadata.name) := rfl
  have mime : OrderedMap.lookupIn (asciiText "mime") metadata.fields =
      some (textOrNull metadata.mime) := rfl
  have size : OrderedMap.lookupIn (asciiText "size") metadata.fields =
      some (naturalOrNull metadata.size) := rfl
  have modified : OrderedMap.lookupIn (asciiText "modified") metadata.fields =
      some (textOrNull metadata.modified) := rfl
  have attributes : OrderedMap.lookupIn (asciiText "attributes") metadata.fields =
      OrderedMap.lookupIn (asciiText "attributes")
        (attributeFields metadata.attributes) := rfl
  have isName : checkName (textOf (.string metadata.name)) = .ok metadata.name :=
    clean.name
  rw [readMetadata, readObject_padded clean]
  simp only [found, name, mime, size, modified, attributes, Option.bind_some,
    checkAttributes_parsed clean.attributes, isName, textOf_textOrNull,
    naturalOf_naturalOrNull clean.size, ok_bind]

/-- What authenticated encryption does: it adds a tag, and opens what it sealed. -/
structure Sealing (V : Vault) : Prop where
  opens : ∀ plaintext key nonce aad, key.length = Worker.KEY_BYTES →
    nonce.length = Worker.ENVELOPE_NONCE_BYTES →
    V.decrypt (V.encrypt plaintext key nonce aad) key nonce aad = some plaintext
  grows : ∀ plaintext key nonce aad,
    (V.encrypt plaintext key nonce aad).length =
      plaintext.length + Worker.CHUNK_TAG_BYTES

/-- What sealing a record takes. -/
structure Sealed (metadata : NodeMetadata) (nodeKey : Key) (aad : Bytes)
    (ctx : MetadataContext) : Prop where
  within : (Script.encode (Script.write metadata.value)).length ≤ METADATA_MAX_BYTES
  context : metadataContext ctx = .ok aad
  key : nodeKey.length = Worker.KEY_BYTES

/-- Sealing succeeds exactly for clean metadata within its size. -/
theorem sealMetadata_eq_ok
    {V : Vault}
    {nonce : Nonce}
    {given : GivenMetadata}
    {nodeKey : Key}
    {ctx : MetadataContext}
    {envelope : Bytes} :
    sealMetadata V nonce given nodeKey ctx = .ok envelope ↔
      ∃ metadata aad, cleanMetadata given = .ok metadata ∧
        Sealed metadata nodeKey aad ctx ∧
        envelope = nonce.val ++ V.encrypt
          (padded (Script.encode (Script.write metadata.value)) METADATA_PAD_STEP
            METADATA_MAX_BYTES) nodeKey nonce.val aad := by
  simp only [sealMetadata, sealBytes, bind_eq_ok, exists_unit, refuseIf_eq_ok, not_lt,
    not_not]
  constructor
  · rintro ⟨metadata, cleaned, within, aad, context, key, made⟩
    cases made
    exact ⟨metadata, aad, cleaned, ⟨within, context, key⟩, rfl⟩
  · rintro ⟨metadata, aad, cleaned, ⟨within, context, key⟩, rfl⟩
    exact ⟨metadata, cleaned, within, aad, context, key, rfl⟩

theorem length_encode_value (metadata : NodeMetadata) :
    0 < (Script.encode (Script.write metadata.value)).length := by
  have brace : Script.Complete [123] := Script.complete_below (by decide)
  have whole := brace.encode (Script.writeFields metadata.fields ++ [125])
  rw [NodeMetadata.value, Script.write, ← singleton_append, whole,
    length_append]
  exact Nat.lt_of_lt_of_le (by decide : 0 < (Script.encode [123]).length)
    (Nat.le_add_right _ _)

/-- What was sealed opens to the clean metadata. -/
theorem openMetadata_sealed
    {V : Vault}
    (sealing : Sealing V)
    (clean : metadata.Clean)
    (nonce : Nonce)
    {nodeKey : Key}
    {aad : Bytes}
    {ctx : MetadataContext}
    (sealed_ : Sealed metadata nodeKey aad ctx) :
    openMetadata V
        (nonce.val ++ V.encrypt
          (padded (Script.encode (Script.write metadata.value)) METADATA_PAD_STEP
            METADATA_MAX_BYTES) nodeKey nonce.val aad) nodeKey ctx =
      .ok metadata := by
  have read := readMetadata_padded clean METADATA_PAD_STEP METADATA_MAX_BYTES
  have some_ := length_encode_value metadata
  obtain ⟨longer, most⟩ := @length_padded _ METADATA_PAD_STEP _ sealed_.within
  generalize padded (Script.encode (Script.write metadata.value)) METADATA_PAD_STEP
    METADATA_MAX_BYTES = plaintext at read longer most ⊢
  have body := sealing.grows plaintext nodeKey nonce.val aad
  have opened := sealing.opens plaintext nodeKey nonce.val aad sealed_.key nonce.property
  have taken : (nonce.val ++ V.encrypt plaintext nodeKey nonce.val aad).take
      Worker.ENVELOPE_NONCE_BYTES = nonce.val :=
    take_left' nonce.property
  have dropped : (nonce.val ++ V.encrypt plaintext nodeKey nonce.val aad).drop
      Worker.ENVELOPE_NONCE_BYTES = V.encrypt plaintext nodeKey nonce.val aad :=
    drop_left' nonce.property
  have long : ¬ (nonce.val ++ V.encrypt plaintext nodeKey nonce.val aad).length ≤
      Worker.ENVELOPE_NONCE_BYTES + Worker.CHUNK_TAG_BYTES := by
    rw [length_append, body, nonce.property]
    omega
  have fits : ¬ METADATA_MAX_BYTES + Worker.CHUNK_TAG_BYTES <
      (V.encrypt plaintext nodeKey nonce.val aad).length := by
    rw [body]
    omega
  simp only [openMetadata, refuseIf, if_neg long, taken, dropped, if_neg fits,
    sealed_.context, ok_bind, opened]
  exact read

/--
`ambiguousJson` tells the texts `JSON.parse` takes that name a key twice in an
object or hold a lone surrogate; and what `sealMetadata` takes is opened as the
record it cleaned, which it takes again as it is.
-/
theorem metadata_reads_alike :
    (∀ text value, Script.parse text = some value →
      (ambiguousJson text = true ↔
        Repeats value.objects ∨ HoldsLone value.strings)) ∧
    ∀ V : Vault, Sealing V →
      ∀ nonce given nodeKey ctx envelope,
        sealMetadata V nonce given nodeKey ctx = .ok envelope →
        ∃ metadata, cleanMetadata given = .ok metadata ∧
          openMetadata V envelope nodeKey ctx = .ok metadata ∧
          cleanMetadata metadata.given = .ok metadata ∧
          sealMetadata V nonce metadata.given nodeKey ctx = .ok envelope ∧
          ∀ again anotherKey further aad,
            anotherKey.length = Worker.KEY_BYTES →
            metadataContext further = .ok aad →
            ∃ resealed,
              sealMetadata V again metadata.given anotherKey further = .ok resealed ∧
              openMetadata V resealed anotherKey further = .ok metadata := by
  refine ⟨fun text value taken => ambiguousJson_of_parse taken, ?_⟩
  intro V sealing nonce given nodeKey ctx envelope written
  obtain ⟨metadata, aad, cleaned, sealed_, rfl⟩ := sealMetadata_eq_ok.mp written
  have clean := clean_of_cleanMetadata cleaned
  have same := cleanMetadata_given clean
  refine ⟨metadata, cleaned, openMetadata_sealed sealing clean nonce sealed_, same,
    sealMetadata_eq_ok.mpr ⟨metadata, aad, same, sealed_, rfl⟩, ?_⟩
  intro again anotherKey further other isKey context
  have resealed : Sealed metadata anotherKey other further :=
    ⟨sealed_.within, context, isKey⟩
  exact ⟨_, sealMetadata_eq_ok.mpr ⟨metadata, other, same, resealed, rfl⟩,
    openMetadata_sealed sealing clean again resealed⟩

theorem sealing_toyVault (P : Primitives) : Sealing (toyVault P) where
  opens plaintext key nonce aad _ _ := by
    have tag : (Worker.toyTag key nonce aad).length = Worker.CHUNK_TAG_BYTES :=
      length_replicate
    have length : (plaintext ++ Worker.toyTag key nonce aad).length -
        Worker.CHUNK_TAG_BYTES = plaintext.length := by
      rw [length_append, tag, Nat.add_sub_cancel]
    simp only [toyVault, length, drop_left, take_left, if_true]
  grows plaintext key nonce aad := by
    simp only [toyVault, length_append, Worker.toyTag, length_replicate]

def sampleGiven : GivenMetadata where
  name := some (asciiText "notes.txt")
  mime := none
  size := some 5
  modified := none
  attributes := .record
    (OrderedMap.empty.set (asciiText "tag") (some (asciiText "red")))

def sampleMetadata : NodeMetadata where
  name := asciiText "notes.txt"
  mime := none
  size := some 5
  modified := none
  attributes := OrderedMap.empty.set (asciiText "tag") (asciiText "red")

def sampleContext : MetadataContext where
  workspaceId := "00000000-0000-4000-8000-000000000001"
  nodeId := "00000000-0000-4000-8000-000000000002"
  metadataVersion := 1

def sampleNonce : Nonce :=
  ⟨List.replicate Worker.ENVELOPE_NONCE_BYTES 0, length_replicate⟩

theorem exists_sampleContext : ∃ aad, metadataContext sampleContext = .ok aad := by
  have workspace : Worker.contextId sampleContext.workspaceId "workspace id" =
      .ok (.text sampleContext.workspaceId) :=
    congrArg (fun check => check >>= fun _ => _) (if_neg (by decide))
  have node : Worker.contextId sampleContext.nodeId "node id" =
      .ok (.text sampleContext.nodeId) :=
    congrArg (fun check => check >>= fun _ => _) (if_neg (by decide))
  have version : Worker.contextEpoch sampleContext.metadataVersion
      "metadata version" = .ok (.number sampleContext.metadataVersion) :=
    congrArg (fun check => check >>= fun _ => _) (if_neg (by decide))
  simp only [metadataContext, workspace, node, version, ok_bind]
  exact ⟨_, rfl⟩

theorem cleanMetadata_sample : cleanMetadata sampleGiven = .ok sampleMetadata := by
  have fields : Keyset.inOrder keyUnits
      (OrderedMap.empty.set (asciiText "tag") (some (asciiText "red"))).entries =
      [(asciiText "tag", some (asciiText "red"))] :=
    mergeSort_singleton _
  have checked : checkAttributes sampleGiven.attributes =
      .ok sampleMetadata.attributes := by
    rw [sampleGiven, checkAttributes, fields]
    decide
  rw [cleanMetadata, checked]
  decide

/-- A text that names a key twice, and a record with an attribute, read back. -/
theorem metadata_reads_alike_sample :
    (ambiguousJson (asciiText "\x7b\"a\":null,\"a\":true\x7d") = true ↔
      Repeats [[asciiText "a", asciiText "a"]] ∨
        HoldsLone [asciiText "a", asciiText "a"]) ∧
    Repeats [[asciiText "a", asciiText "a"]] ∧
    ∃ envelope,
      sealMetadata (toyVault (toyWith fun _ => 0)) sampleNonce sampleGiven
        (List.replicate 32 7) sampleContext = .ok envelope ∧
      openMetadata (toyVault (toyWith fun _ => 0)) envelope (List.replicate 32 7)
        sampleContext = .ok sampleMetadata := by
  obtain ⟨aad, context⟩ := exists_sampleContext
  have written : sealMetadata (toyVault (toyWith fun _ => 0)) sampleNonce sampleGiven
      (List.replicate 32 7) sampleContext = .ok _ :=
    sealMetadata_eq_ok.mpr ⟨sampleMetadata, aad, cleanMetadata_sample,
      ⟨by decide, context, length_replicate⟩, rfl⟩
  obtain ⟨metadata, cleaned, opened, _⟩ := metadata_reads_alike.2 _
    (sealing_toyVault _) sampleNonce sampleGiven (List.replicate 32 7)
    sampleContext _ written
  obtain rfl := Except.ok.inj (cleanMetadata_sample.symm.trans cleaned)
  let twice : Value := .object [(asciiText "a", .null), (asciiText "a", .bool true)]
  exact ⟨metadata_reads_alike.1 _ twice (Script.parse_write twice []),
    ⟨_, mem_singleton_self _, by decide⟩, _, written, opened⟩

end Content

end HushOS
