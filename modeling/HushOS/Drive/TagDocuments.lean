import HushOS.Drive.TagEdits
import HushOS.Toolkit.ScriptObject
import Mathlib.Data.List.DropRight

namespace HushOS

open Toolkit List OrderedMap

namespace Tags

/-!
# The tag list as it is sealed and read

A registry is sealed as one document, and read back with what makes no sense
dropped and what is not understood kept.  What this app writes it reads back
whole: every tag and every membership.
-/

open Script (Text Value asciiText objectOf textOf)

def TAG_NAME_MAX_CODE_POINTS : Nat := 40

def TAG_PRESETS : List Text :=
  ["blue", "ink", "yellow", "teal", "coral"].map asciiText

/-- What a tag list is refused with. -/
structure TagError where
  message : String
  deriving DecidableEq, Repr

/-- A registry as a device has it. -/
abbrev Registry := TagRegistry Text (OrderedMap Text Value) Value

/-- Whether a unit is what `\s` matches and `trim` takes off. -/
def isWhite (unit : UInt16) : Bool :=
  (9 ≤ unit.toNat && unit.toNat ≤ 13) || unit = 0x20 || unit = 0xA0 ||
    unit = 0x1680 || (0x2000 ≤ unit.toNat && unit.toNat ≤ 0x200A) ||
    unit = 0x2028 || unit = 0x2029 || unit = 0x202F || unit = 0x205F ||
    unit = 0x3000 || unit = 0xFEFF

/-- A text without the white space around it. -/
def trim (text : Text) : Text :=
  (text.dropWhile isWhite).rdropWhile isWhite

/-- Each run of white space as one space; `spaced` is whether it was begun. -/
def squeeze : (spaced : Bool) → Text → Text
  | _, [] => []
  | spaced, unit :: rest =>
    if isWhite unit then
      if spaced then squeeze true rest else 0x20 :: squeeze true rest
    else
      unit :: squeeze false rest

/-- Whether a character is a control character. -/
def isControl (char : Char) : Bool :=
  char.toNat < 0x20 || char.toNat = 0x7F

/-- A name a tag can have. -/
def checkTagName (given : Option Text) : Except TagError Text :=
  match given with
  | none => .error ⟨"Enter a tag name."⟩
  | some name => do
      let clean := squeeze false (trim name)
      let points := (Script.chars clean).length
      refuseIf (points < 1) ⟨"Enter a tag name."⟩
      refuseIf (TAG_NAME_MAX_CODE_POINTS < points)
        ⟨"Use a tag name of at most 40 characters."⟩
      refuseIf ((Script.chars clean).any isControl = true)
        ⟨"Tag names cannot contain control characters."⟩
      .ok clean

/-- Whether a unit is a digit of an id. -/
def isIdDigit (unit : UInt16) : Bool :=
  (48 ≤ unit.toNat && unit.toNat ≤ 57) || (97 ≤ unit.toNat && unit.toNat ≤ 102)

/-- `UUID`: thirty-two digits, with a dash after eight, twelve, sixteen and twenty. -/
def isUuid (text : Text) : Bool :=
  text.length = 36 &&
    text.zipIdx.all fun (unit, place) =>
      if place ∈ [8, 13, 18, 23] then unit = 45 else isIdDigit unit

/-- `HEX`: a `#` and six digits of either case. -/
def isHex : Text → Bool
  | [] => false
  | first :: rest =>
    first = 35 && rest.length = 6 && rest.all fun unit => (Script.hexDigit? unit).isSome

/-- A tag's colour, if a value is one. -/
def isTagColour (value : Option Text) : Bool :=
  match value with
  | none => false
  | some colour => TAG_PRESETS.contains colour || isHex colour

/-- A unit in lower case. -/
def lower (unit : UInt16) : UInt16 :=
  if 65 ≤ unit.toNat && unit.toNat ≤ 90 then unit + 32 else unit

/-- A colour with its digits in lower case. -/
def normaliseColour (colour : Text) : Text :=
  if isHex colour then colour.map lower else colour

/-- A field of an object that is text. -/
def textAt (object : OrderedMap Text Value) (key : String) : Option Text :=
  (object.get? (asciiText key)).bind textOf

def TAG_KEYS : List Text :=
  ["id", "name", "colour"].map asciiText

def DOCUMENT_KEYS : List Text :=
  ["version", "tags", "items"].map asciiText

/-- An object's fields, but for some. -/
def without (keys : List Text) (object : OrderedMap Text Value) : OrderedMap Text Value :=
  object.keep fun key => key ∉ keys

/-- The tag an entry of a document is, after some tags of it. -/
def readTag
    (tags : List (Tag Text (OrderedMap Text Value)))
    (entry : Value) :
    Option (Tag Text (OrderedMap Text Value)) :=
  match entry with
  | .object fields =>
    let tag := objectOf fields
    match textAt tag "id" with
    | none => none
    | some id =>
      if isUuid id = false ∨ id ∈ idsOf tags then
        none
      else
        match checkTagName (textAt tag "name") with
        | .error _ => none
        | .ok name =>
          let colour :=
            if isTagColour (textAt tag "colour") then
              normaliseColour ((textAt tag "colour").getD [])
            else
              TAG_PRESETS.getD (tags.length % TAG_PRESETS.length) []
          some ⟨id, name, colour, without TAG_KEYS tag⟩
  | _ => none

/-- The tags of a document, the first there may be. -/
def readTags :
    List Value →
    List (Tag Text (OrderedMap Text Value)) →
    List (Tag Text (OrderedMap Text Value))
  | [], tags => tags
  | entry :: rest, tags =>
    match readTag tags entry with
    | none => readTags rest tags
    | some tag =>
      if (tags ++ [tag]).length = MAX_TAGS then
        tags ++ [tag]
      else
        readTags rest (tags ++ [tag])

/-- The ids a value lists, if it is a list. -/
def idsIn : Value → Option (List Text)
  | .array list => some ((list.filterMap textOf).filter isUuid).eraseDups
  | _ => none

/-- The entries of a value, as an object has them. -/
def entriesIn : Value → OrderedMap Text Value
  | .object fields => objectOf fields
  | .array list =>
    objectOf (list.zipIdx.map fun (value, place) =>
      ((Script.Number.ofNat place).text, value))
  | _ => .empty

/-- The items of some tags, as a document lists them. -/
def readItems
    (raw : OrderedMap Text Value)
    (tags : List (Tag Text (OrderedMap Text Value))) :
    OrderedMap Text (List Text) :=
  collect (fun id => ((raw.get? id).bind idsIn).getD []) tags

/-- An opened document as a registry. -/
def parseRegistry : Value → Except TagError Registry
  | .object fields =>
    let value := objectOf fields
    let version := (value.get? (asciiText "version")).bind fun version =>
      match version with
      | .number number => number.natural?
      | _ => none
    if version ≠ some 1 ∧ version ≠ some 2 then
      .error ⟨"The tag list was made by a newer app."⟩
    else
      let entries :=
        match value.get? (asciiText "tags") with
        | some (.array entries) => entries
        | _ => []
      let tags := readTags entries []
      let raw := ((value.get? (asciiText "items")).map entriesIn).getD .empty
      .ok {
        tags := tags
        items := readItems raw tags
        kept := ⟨without DOCUMENT_KEYS value,
          raw.keep fun id => id ∉ idsOf tags⟩
      }
  | _ => .error ⟨"The tag list could not be read."⟩

/-- A tag in its document. -/
def Tag.value (tag : Tag Text (OrderedMap Text Value)) : Value :=
  .object
    (((tag.fields.set (asciiText "id") (.string tag.id)).set
      (asciiText "name") (.string tag.name)).set
      (asciiText "colour") (.string tag.colour)).entries

/-- The items of each tag as they are written. -/
def itemValues (items : OrderedMap Text (List Text)) : OrderedMap Text Value :=
  items.mapValues fun ids => .array (ids.map Value.string)

/-- A registry as it is sealed, with what was kept unread put back. -/
def serialiseRegistry (registry : Registry) : Value :=
  .object
    (((registry.kept.fields.set
      (asciiText "version") (.number (Script.Number.ofNat 2))).set
      (asciiText "tags") (.array (registry.tags.map Tag.value))).set
      (asciiText "items")
        (.object (spread registry.kept.items (itemValues registry.items)).entries)).entries

/-- A text without white space at its ends. -/
structure Trimmed (text : Text) : Prop where
  first : ∀ unit, text.head? = some unit → isWhite unit = false
  last : ∀ unit, text.getLast? = some unit → isWhite unit = false

theorem trimmed_trim (text : Text) : Trimmed (trim text) := by
  constructor
  · intro unit first
    have starts : (trim text) <+: text.dropWhile isWhite :=
      rdropWhile_prefix isWhite _
    have same : (text.dropWhile isWhite).head? = some unit := by
      obtain ⟨rest, shape⟩ := starts
      rw [← shape, head?_append, first]
      rfl
    have test := head?_dropWhile_not isWhite text
    rw [same] at test
    simpa using test
  · intro unit last
    have some_ : trim text ≠ [] := by
      rintro none_
      rw [none_] at last
      cases last
    have test := rdropWhile_last_not isWhite (text.dropWhile isWhite) some_
    rw [getLast?_eq_some_getLast some_, Option.some_inj] at last
    rw [← last]
    simpa [trim] using test

theorem trim_of_trimmed
    {text : Text}
    (trimmed : Trimmed text) :
    trim text = text := by
  have first : text.dropWhile isWhite = text := by
    cases text with
    | nil => rfl
    | cons unit rest =>
      have black := trimmed.first unit rfl
      rw [dropWhile_cons_of_neg]
      simp [black]
  rw [trim, first, rdropWhile_eq_self_iff]
  intro some_ white
  have black := trimmed.last _ (getLast?_eq_some_getLast some_)
  rw [black] at white
  cases white

theorem squeeze_squeeze (spaced : Bool) (text : Text) :
    squeeze spaced (squeeze spaced text) = squeeze spaced text := by
  induction text generalizing spaced with
  | nil => rfl
  | cons unit rest inductionHypothesis =>
    by_cases white : isWhite unit = true
    · cases spaced with
      | true =>
        rw [squeeze, if_pos white, if_pos rfl]
        exact inductionHypothesis true
      | false =>
        have space : isWhite 0x20 = true := by decide
        rw [squeeze, if_pos white, if_neg Bool.false_ne_true, squeeze, if_pos space,
          if_neg Bool.false_ne_true, inductionHypothesis true]
    · rw [squeeze, if_neg white, squeeze, if_neg white, inductionHypothesis false]

theorem squeeze_concat
    {unit : UInt16}
    (black : isWhite unit = false)
    (spaced : Bool)
    (text : Text) :
    squeeze spaced (text ++ [unit]) = squeeze spaced text ++ [unit] := by
  induction text generalizing spaced with
  | nil => simp [squeeze, black]
  | cons first rest inductionHypothesis =>
    rw [cons_append, squeeze, squeeze]
    split
    · split
      · exact inductionHypothesis true
      · rw [inductionHypothesis true, cons_append]
    · rw [inductionHypothesis false, cons_append]

theorem trimmed_squeeze
    {text : Text}
    (trimmed : Trimmed text) :
    Trimmed (squeeze false text) := by
  constructor
  · intro unit first
    cases text with
    | nil => cases first
    | cons head rest =>
      have black := trimmed.first head rfl
      rw [squeeze, if_neg (by simp [black]), head?_cons, Option.some_inj] at first
      rw [← first]
      exact black
  · intro unit last
    rcases eq_nil_or_concat text with none_ | ⟨rest, tail, shape⟩
    · rw [none_] at last
      cases last
    · rw [concat_eq_append] at shape
      have black := trimmed.last tail (by rw [shape, getLast?_concat])
      rw [shape, squeeze_concat black, getLast?_concat, Option.some_inj] at last
      rw [← last]
      exact black

theorem checkTagName_clean
    {given : Option Text}
    {clean : Text}
    (checked : checkTagName given = .ok clean) :
    checkTagName (some clean) = .ok clean := by
  cases given with
  | none => cases checked
  | some name =>
    have shape : squeeze false (trim name) = clean := by
      simp only [checkTagName, bind_eq_ok, Except.ok.injEq] at checked
      obtain ⟨_, _, _, _, _, _, shape⟩ := checked
      exact shape
    have again : squeeze false (trim clean) = clean := by
      rw [← shape, trim_of_trimmed (trimmed_squeeze (trimmed_trim name)),
        squeeze_squeeze]
    simp only [checkTagName, shape] at checked
    simp only [checkTagName, again]
    exact checked

theorem objectOf_entries (object : OrderedMap Text Value) :
    objectOf object.entries = object :=
  OrderedMap.ext (Script.entries_objectOf object.nodup)

/-- A spread record is the upper one over the one beneath. -/
theorem get?_spread
    {α β : Type}
    [DecidableEq α]
    (under upper : OrderedMap α β)
    (key : α) :
    (spread under upper).get? key = (upper.get? key).or (under.get? key) := by
  have put : ∀ (entries : List (α × β)) (made : OrderedMap α β),
      (entries.map Prod.fst).Nodup →
      (entries.foldl (fun made entry => made.set entry.1 entry.2) made).get? key =
        (OrderedMap.lookupIn key entries).or (made.get? key) := by
    intro entries
    induction entries with
    | nil => exact fun _ _ => rfl
    | cons entry rest inductionHypothesis =>
      intro made distinct
      rw [map_cons, nodup_cons] at distinct
      rw [foldl_cons, inductionHypothesis _ distinct.2, get?_set,
        OrderedMap.lookupIn]
      by_cases same : entry.1 = key
      · have later : OrderedMap.lookupIn key rest = none := by
          rw [Option.eq_none_iff_forall_ne_some]
          intro value found
          rw [lookupIn_eq_some distinct.2] at found
          exact distinct.1 (same ▸ mem_map_of_mem found)
        rw [if_pos same, if_pos same.symm, later]
        rfl
      · rw [if_neg same, if_neg (Ne.symm same)]
  exact put upper.entries under upper.nodup

theorem get?_collect
    {κ ε : Type}
    [DecidableEq κ]
    {itemsOf : κ → List κ}
    {tags : List (Tag κ ε)}
    {id : κ} :
    (collect itemsOf tags).get? id =
      if id ∈ idsOf tags ∧ itemsOf id ≠ [] then some (itemsOf id) else none :=
  get?_foldl_collect

theorem getD_collect
    {κ ε : Type}
    [DecidableEq κ]
    {itemsOf : κ → List κ}
    {tags : List (Tag κ ε)}
    {id : κ} :
    ((collect itemsOf tags).get? id).getD [] =
      if id ∈ idsOf tags then itemsOf id else [] := by
  rw [get?_collect]
  by_cases listed : id ∈ idsOf tags
  · by_cases none_ : itemsOf id = []
    · rw [if_neg (fun both => both.2 none_), if_pos listed, none_]
      rfl
    · rw [if_pos ⟨listed, none_⟩, if_pos listed]
      rfl
  · rw [if_neg (fun both => listed both.1), if_neg listed]
    rfl

theorem filterMap_textOf (ids : List Text) :
    (ids.map Value.string).filterMap textOf = ids := by
  rw [filterMap_map]
  exact filterMap_some

variable {id : Text}

theorem mem_idsIn
    {ids : List Text} :
    id ∈ (idsIn (.array (ids.map Value.string))).getD [] ↔
      id ∈ ids ∧ isUuid id = true := by
  rw [idsIn, Option.getD_some, mem_eraseDups, mem_filter, filterMap_textOf]

theorem isUuid_of_mem_idsIn
    {value : Value}
    (member : id ∈ (idsIn value).getD []) :
    isUuid id = true := by
  cases value with
  | array list =>
    rw [idsIn, Option.getD_some, mem_eraseDups, mem_filter] at member
    exact member.2
  | _ => cases member

/-- A tag this app reads. -/
structure IsTag (tag : Tag Text (OrderedMap Text Value)) : Prop where
  id : isUuid tag.id = true
  name : checkTagName (some tag.name) = .ok tag.name

variable {tags : List (Tag Text (OrderedMap Text Value))}

theorem isTag_of_readTag
    {entry : Value}
    {tag : Tag Text (OrderedMap Text Value)}
    (read : readTag tags entry = some tag) :
    IsTag tag ∧ tag.id ∉ idsOf tags := by
  cases entry with
  | object fields =>
    rw [readTag] at read
    split at read
    · cases read
    · next id found =>
        split at read
        · cases read
        · next fresh =>
            split at read
            · cases read
            · next name checked =>
                rw [not_or, Bool.not_eq_false] at fresh
                cases read
                exact ⟨⟨fresh.1, checkTagName_clean checked⟩, fresh.2⟩
  | _ => cases read

theorem tag_keys_differ :
    asciiText "id" ≠ asciiText "name" ∧ asciiText "id" ≠ asciiText "colour" ∧
      asciiText "name" ≠ asciiText "colour" := by
  decide

/-- A written tag is read back under its own id. -/
theorem readTag_value
    {tag : Tag Text (OrderedMap Text Value)}
    (isTag : IsTag tag)
    (fresh : tag.id ∉ idsOf tags) :
    ∃ read, readTag tags tag.value = some read ∧ read.id = tag.id := by
  obtain ⟨idName, idColour, nameColour⟩ := tag_keys_differ
  rw [Tag.value, readTag]
  simp only [objectOf_entries]
  have id : textAt
      (((tag.fields.set (asciiText "id") (.string tag.id)).set
        (asciiText "name") (.string tag.name)).set
        (asciiText "colour") (.string tag.colour)) "id" = some tag.id := by
    rw [textAt, get?_set, if_neg idColour, get?_set, if_neg idName,
      get?_set, if_pos rfl]
    rfl
  have name : textAt
      (((tag.fields.set (asciiText "id") (.string tag.id)).set
        (asciiText "name") (.string tag.name)).set
        (asciiText "colour") (.string tag.colour)) "name" = some tag.name := by
    rw [textAt, get?_set, if_neg nameColour, get?_set, if_pos rfl]
    rfl
  have unread : ¬ (isUuid tag.id = false ∨ tag.id ∈ idsOf tags) := by
    rw [not_or, Bool.not_eq_false]
    exact ⟨isTag.id, fresh⟩
  rw [id]
  simp only [if_neg unread, name, isTag.name]
  exact ⟨_, rfl, rfl⟩

/-- Reading adds only sound tags, each once, within the room. -/
theorem readTags_sound
    (entries : List Value)
    {tags : List (Tag Text (OrderedMap Text Value))}
    (areTags : ∀ tag ∈ tags, IsTag tag)
    (distinct : (idsOf tags).Nodup)
    (room : tags.length < MAX_TAGS) :
    (∀ tag ∈ readTags entries tags, IsTag tag) ∧
      (idsOf (readTags entries tags)).Nodup ∧
      (readTags entries tags).length ≤ MAX_TAGS := by
  induction entries generalizing tags with
  | nil => exact ⟨areTags, distinct, Nat.le_of_lt room⟩
  | cons entry rest inductionHypothesis =>
    rw [readTags]
    split
    · exact inductionHypothesis areTags distinct room
    · next tag read =>
        obtain ⟨isTag, fresh⟩ := isTag_of_readTag read
        have areAll : ∀ other ∈ tags ++ [tag], IsTag other := by
          intro other member
          rcases mem_append.mp member with earlier | new
          · exact areTags other earlier
          · rw [mem_singleton.mp new]
            exact isTag
        have allDistinct : (idsOf (tags ++ [tag])).Nodup := by
          rw [idsOf, map_append, map_singleton, nodup_append]
          refine ⟨distinct, nodup_singleton _, ?_⟩
          rintro id listed _ new rfl
          rw [mem_singleton.mp new] at listed
          exact fresh listed
        have longer : (tags ++ [tag]).length ≤ MAX_TAGS := by
          rw [length_append]
          exact room
        split
        · exact ⟨areAll, allDistinct, longer⟩
        · next more =>
            exact inductionHypothesis areAll allDistinct (Nat.lt_of_le_of_ne longer more)

/-- Written tags are read back in their order. -/
theorem ids_readTags
    {written : List (Tag Text (OrderedMap Text Value))}
    (areTags : ∀ tag ∈ written, IsTag tag)
    (distinct : (idsOf tags ++ idsOf written).Nodup)
    (room : tags.length + written.length ≤ MAX_TAGS) :
    idsOf (readTags (written.map Tag.value) tags) = idsOf tags ++ idsOf written := by
  induction written generalizing tags with
  | nil => exact (append_nil _).symm
  | cons tag rest inductionHypothesis =>
    have fresh : tag.id ∉ idsOf tags := fun listed =>
      (nodup_append.mp distinct).2.2 _ listed _ mem_cons_self rfl
    obtain ⟨read, isRead, sameId⟩ :=
      readTag_value (areTags tag mem_cons_self) fresh
    have ids : idsOf (tags ++ [read]) = idsOf tags ++ [tag.id] := by
      rw [idsOf, map_append, map_singleton, sameId]
      rfl
    have all : idsOf tags ++ idsOf (tag :: rest) = idsOf (tags ++ [read]) ++ idsOf rest := by
      rw [ids, append_assoc]
      rfl
    rw [map_cons, readTags, isRead, all]
    simp only
    rw [length_cons] at room
    split
    · next full =>
        have none_ : rest = [] := by
          rw [length_append, length_singleton] at full
          exact length_eq_zero_iff.mp (by omega)
        rw [none_]
        exact (append_nil _).symm
    · refine inductionHypothesis
        (fun other member => areTags other (mem_cons_of_mem _ member)) ?_ ?_
      · rw [← all]
        exact distinct
      · rw [length_append, length_singleton]
        omega

/-- A registry this app reads, and writes. -/
structure Written (registry : Registry) : Prop where
  tags : ∀ tag ∈ registry.tags, IsTag tag
  valid : registry.Valid
  keyed : ∀ id, registry.items.get? id ≠ none → registry.Has id
  items : ∀ tag item, registry.Carries tag item → isUuid item = true

variable {registry : Registry} {document : Value} {base ours theirs : Registry}

theorem carries_readItems
    {raw : OrderedMap Text Value}
    (items : registry.items = readItems raw registry.tags)
    (tag item : Text) :
    registry.Carries tag item ↔
      registry.Has tag ∧ item ∈ ((raw.get? tag).bind idsIn).getD [] := by
  rw [TagRegistry.Carries, TagRegistry.itemsOf, items, readItems, getD_collect]
  split
  · next has => exact ⟨fun member => ⟨has, member⟩, fun both => both.2⟩
  · next absent => exact ⟨fun member => (by cases member), fun both => absurd both.1 absent⟩

/-- A document that is read: its tags, what it lists for them and what it keeps. -/
structure Reading (entries : List Value) (raw : OrderedMap Text Value) (registry : Registry) :
    Prop where
  tags : registry.tags = readTags entries []
  items : registry.items = readItems raw registry.tags
  unread : registry.kept.items = raw.keep fun id => id ∉ idsOf registry.tags

theorem reading_of_parse
    (parsed : parseRegistry document = .ok registry) :
    ∃ entries raw, Reading entries raw registry := by
  cases document with
  | object fields =>
    rw [parseRegistry] at parsed
    simp only at parsed
    split at parsed
    · cases parsed
    · cases parsed
      exact ⟨_, _, rfl, rfl, rfl⟩
  | _ => cases parsed

/-- A registry that was parsed can be written. -/
theorem written_of_parse
    (parsed : parseRegistry document = .ok registry) :
    Written registry := by
  obtain ⟨entries, raw, reading⟩ := reading_of_parse parsed
  obtain ⟨areTags, distinct, within⟩ :=
    @readTags_sound entries [] nofun nodup_nil (by decide)
  rw [← reading.tags] at areTags distinct within
  constructor
  · exact areTags
  · refine ⟨distinct, within, fun tag item carries => ?_⟩
    exact ((carries_readItems reading.items tag item).mp carries).1
  · intro id some_
    rw [reading.items, readItems, get?_collect] at some_
    split at some_
    · next both => exact both.1
    · exact absurd rfl some_
  · intro tag item carries
    have member := ((carries_readItems reading.items tag item).mp carries).2
    cases listed : raw.get? tag with
    | none =>
      rw [listed] at member
      cases member
    | some value =>
      rw [listed, Option.bind_some] at member
      exact isUuid_of_mem_idsIn member

theorem document_keys_differ :
    asciiText "version" ≠ asciiText "tags" ∧ asciiText "version" ≠ asciiText "items" ∧
      asciiText "tags" ≠ asciiText "items" := by
  decide

theorem natural?_two : (Script.Number.ofNat 2).natural? = some 2 := by
  decide

theorem reading_serialise (registry : Registry) :
    ∃ read, parseRegistry (serialiseRegistry registry) = .ok read ∧
      Reading (registry.tags.map Tag.value)
        (spread registry.kept.items (itemValues registry.items)) read := by
  obtain ⟨versionTags, versionItems, tagsItems⟩ := document_keys_differ
  rw [serialiseRegistry, parseRegistry]
  simp only [objectOf_entries, get?_set, if_neg versionItems, if_neg versionTags,
    if_neg tagsItems, if_pos, Option.bind_some, natural?_two, Option.map_some,
    Option.getD_some, entriesIn]
  rw [if_neg (fun both => both.2 rfl)]
  exact ⟨_, rfl, rfl, rfl, rfl⟩

/-- A registry that was written is read back alike. -/
theorem parse_serialise
    (written : Written registry)
    (apart : ∀ id, registry.Has id → registry.kept.items.get? id = none) :
    ∃ read, parseRegistry (serialiseRegistry registry) = .ok read ∧ Alike read registry ∧
      ∀ id, read.kept.items.get? id ≠ none → registry.kept.items.get? id ≠ none := by
  obtain ⟨read, parsed, reading⟩ := reading_serialise registry
  have ids : idsOf read.tags = idsOf registry.tags := by
    rw [reading.tags]
    refine ids_readTags written.tags written.valid.distinct ?_
    rw [length_nil, Nat.zero_add]
    exact written.valid.within
  have has : ∀ id, read.Has id ↔ registry.Has id := fun id => by
    rw [TagRegistry.Has, TagRegistry.Has, ids]
  refine ⟨read, parsed, ⟨has, fun tag item => ?_⟩, fun id some_ => ?_⟩
  · rw [carries_readItems reading.items, has, get?_spread, itemValues,
      get?_mapValues]
    constructor
    · rintro ⟨isTag, member⟩
      rw [apart tag isTag, Option.or_none] at member
      rw [TagRegistry.Carries, TagRegistry.itemsOf]
      cases items : registry.items.get? tag with
      | none =>
        rw [items] at member
        cases member
      | some ids =>
        rw [items] at member
        exact (mem_idsIn.mp member).1
    · intro carries
      refine ⟨written.valid.listed tag item carries, ?_⟩
      have isId := written.items tag item carries
      rw [TagRegistry.Carries, TagRegistry.itemsOf] at carries
      cases items : registry.items.get? tag with
      | none =>
        rw [items] at carries
        cases carries
      | some ids =>
        rw [items] at carries
        exact mem_idsIn.mpr ⟨carries, isId⟩
  · rw [reading.unread, get?_keep, get?_spread, itemValues,
      get?_mapValues] at some_
    split at some_
    · next absent =>
        have unlisted : registry.items.get? id = none := by
          by_contra listed
          have isTag := (has id).mpr (written.keyed id listed)
          have outside : id ∉ idsOf read.tags := by
            simpa using absent
          exact outside isTag
        rw [unlisted] at some_
        exact some_
    · exact absurd rfl some_

/-- A registry this app can seal: what it keeps unread lists none of its tags. -/
structure Sealable (unread : Text → Prop) (registry : Registry) : Prop where
  written : Written registry
  kept : ∀ id, registry.kept.items.get? id ≠ none → unread id
  apart : ∀ id, registry.Has id → ¬ unread id

theorem sealable_empty (unread : Text → Prop) : Sealable unread emptyRegistry where
  written := ⟨nofun, ⟨nodup_nil, Nat.zero_le _, nofun⟩,
    fun _ some_ => absurd rfl some_, nofun⟩
  kept := fun _ some_ => absurd rfl some_
  apart := nofun

theorem sealable_of_parse
    (parsed : parseRegistry document = .ok registry) :
    Sealable (fun id => registry.kept.items.get? id ≠ none) registry := by
  refine ⟨written_of_parse parsed, fun _ some_ => some_, fun id has => ?_⟩
  obtain ⟨entries, raw, reading⟩ := reading_of_parse parsed
  have listed : id ∈ idsOf registry.tags := has
  rw [reading.unread, get?_keep, if_neg, not_not]
  simpa using listed

theorem parse_sealable
    {unread : Text → Prop}
    (sealable : Sealable unread registry) :
    ∃ read, parseRegistry (serialiseRegistry registry) = .ok read ∧
      Alike read registry ∧ Sealable unread read := by
  have apart : ∀ id, registry.Has id → registry.kept.items.get? id = none := by
    intro id has
    by_contra listed
    exact sealable.apart id has (sealable.kept id listed)
  obtain ⟨read, parsed, alike, kept⟩ := parse_serialise sealable.written apart
  exact ⟨read, parsed, alike, written_of_parse parsed,
    fun id some_ => sealable.kept id (kept id some_),
    fun id has => sealable.apart id ((alike.has id).mp has)⟩

/-- A merge of written registries can be written. -/
theorem written_mergeRegistries
    (isOurs : Written ours)
    (isTheirs : Written theirs) :
    Written (mergeRegistries base ours theirs) := by
  constructor
  · intro tag member
    have stands := mem_standingTags.mp (mem_of_mem_take member)
    rcases byId_of_standing stands with mine | other
    · exact isOurs.tags tag (byId_some mine).1
    · exact isTheirs.tags tag (byId_some other).1
  · exact valid_mergeRegistries base ours theirs
  · intro id some_
    rw [mergeRegistries, get?_collect] at some_
    split at some_
    · next both => exact both.1
    · exact absurd rfl some_
  · intro tag item carries
    rcases mem_mergedItems.mp (carries_mergeRegistries.mp carries).2 with other | mine
    · exact isTheirs.items tag item other.1
    · exact isOurs.items tag item mine.1

theorem side_of_has
    (has : (mergeRegistries base ours theirs).Has id) :
    ours.Has id ∨ theirs.Has id := by
  by_cases mine : ours.Has id
  · exact .inl mine
  · exact .inr ((stands_of_theirs mine).mp (standing_of_has has)).1

theorem sealable_mergeRegistries
    {unread : Text → Prop}
    (isOurs : Sealable unread ours)
    (isTheirs : Sealable unread theirs) :
    Sealable unread (mergeRegistries base ours theirs) := by
  refine ⟨written_mergeRegistries isOurs.written isTheirs.written, fun id some_ => ?_,
    fun id has => ?_⟩
  · rw [mergeRegistries, get?_spread] at some_
    cases mine : ours.kept.items.get? id with
    | none =>
      rw [mine, Option.none_or] at some_
      exact isTheirs.kept id some_
    | some value => exact isOurs.kept id (by simp [mine])
  · rcases side_of_has has with mine | other
    · exact isOurs.apart id mine
    · exact isTheirs.apart id other

end Tags

end HushOS
