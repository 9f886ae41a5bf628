import HushOS.GroupSuccessions
import HushOS.Rosters
import HushOS.Toolkit.JsonSize

namespace HushOS

open Toolkit List

/-!
# The sizes of statements

The field rules bound every part of a statement, so the largest roster they
admit, 10,000 entries and 1,024 rows, is still below the 4 MiB a statement may
have.  A roster that keeps the field rules always has a statement, and so does
a succession.
-/

/-- A text whose characters all keep the statement grammar. -/
def PlainText (text : String) : Prop :=
  text.toList.all isPlain = true

instance (text : String) : Decidable (PlainText text) :=
  inferInstanceAs (Decidable (_ = true))

variable {text : String} {kind : GroupKind} {member : RosterMember} {rosterVersion : Nat}

@[simp] theorem grammatical_text
    {depth : Nat} :
    grammatical (.text text) depth = true ↔ PlainText text :=
  Iff.rfl

theorem allGrammatical_iff
    {items : List Json.Plain}
    {depth : Nat} :
    allGrammatical items depth = true ↔
      ∀ item ∈ items, grammatical item depth = true := by
  induction items with
  | nil =>
    simp [allGrammatical]
  | cons item rest inductionHypothesis =>
    simp [allGrammatical, inductionHypothesis]

/-- A list's text is ASCII where each item's is. -/
theorem ascii_compactItems
    {items : List Json.Plain}
    (each : ∀ item ∈ items, ∀ char ∈ Json.compact item, char.toNat < 128)
    (char : Char)
    (member : char ∈ Json.compactItems items) :
    char.toNat < 128 := by
  induction items with
  | nil =>
    simp [Json.compactItems] at member
  | cons item rest inductionHypothesis =>
    have first := each item mem_cons_self char
    cases rest with
    | nil =>
      exact first member
    | cons next later =>
      simp only [Json.compactItems, mem_append,
        mem_cons] at member
      rcases member with inItem | rfl | inRest
      · exact first inItem
      · decide
      · exact inductionHypothesis
          (fun other isOther => each other (.tail item isOther)) inRest

/-- What keeps the statement grammar is written in ASCII. -/
theorem ascii_compact
    (plain : Json.Plain)
    (depth : Nat)
    (kept : grammatical plain depth = true)
    (char : Char)
    (member : char ∈ Json.compact plain) :
    char.toNat < 128 := by
  match plain with
  | .text value =>
    have printable := printable_of_grammatical (.text value) depth kept
    rw [Json.compact, Json.flatMap_escape printable] at member
    simp only [mem_cons, mem_append, not_mem_nil,
      or_false] at member
    rcases member with rfl | inText | rfl
    · decide
    · have found := all_eq_true.mp kept char inText
      simp only [isPlain, Bool.and_eq_true, decide_eq_true_eq] at found
      omega
    · decide
  | .number value =>
    have digit :=
      Nat.isDigit_of_mem_toDigits (by decide) (by decide) member
    simp only [Char.isDigit, Bool.and_eq_true, decide_eq_true_eq,
      UInt32.le_iff_toNat_le] at digit
    exact lt_of_le_of_lt digit.2 (by decide)
  | .list items =>
    simp only [grammatical, Bool.and_eq_true] at kept
    simp only [Json.compact, mem_cons, mem_append,
      not_mem_nil, or_false] at member
    rcases member with rfl | inItems | rfl
    · decide
    · refine ascii_compactItems (fun item isItem => ?_) char inItems
      exact ascii_compact item (depth + 1)
        (allGrammatical_iff.mp kept.2 item isItem)
    · decide
termination_by sizeOf plain
decreasing_by
  have smaller := sizeOf_lt_of_mem isItem
  simp only [Json.Plain.list.sizeOf_spec]
  omega

theorem encodeStatement_of_short
    {parts : List Json.Plain}
    (kept : grammatical (.list parts) 0 = true)
    (short : (Json.compact (.list parts)).length ≤ MAX_STATEMENT_BYTES) :
    encodeStatement parts =
      .ok (Utf8.encode (Json.compact (.list parts))) := by
  refine encodeStatement_eq_ok.mpr ⟨kept, rfl, ?_⟩
  rw [Utf8.length_encode (ascii_compact _ 0 kept)]
  exact short

theorem PlainText.length_compact
    (plain : PlainText text) :
    (Json.compact (.text text)).length = text.toList.length + 2 :=
  Json.length_compact_text (printable_of_grammatical (.text text) 0 plain)

/-- A UUID is 36 plain characters. -/
theorem plainText_of_isUuid
    (isId : isUuid text = true) :
    PlainText text ∧ text.toList.length = 36 := by
  simp only [isUuid, Bool.and_eq_true, decide_eq_true_eq] at isId
  refine ⟨?_, isId.1⟩
  rw [PlainText, all_eq_true]
  intro char member
  obtain ⟨index, inside, rfl⟩ := mem_iff_getElem.mp member
  have shaped := all_eq_true.mp isId.2 (text.toList[index], index)
    (mem_zipIdx_iff_getElem?.mpr (getElem?_eq_getElem inside))
  dsimp only at shaped
  generalize text.toList[index] = char at shaped ⊢
  split at shaped
  · rw [decide_eq_true_eq] at shaped
    subst shaped
    decide
  · simp only [isLowerHex, Char.isDigit, Bool.or_eq_true, Bool.and_eq_true,
      decide_eq_true_eq, UInt32.le_iff_toNat_le] at shaped
    have range :
        48 ≤ char.toNat ∧ char.toNat ≤ 57 ∨
          97 ≤ char.toNat ∧ char.toNat ≤ 102 := shaped
    simp only [isPlain, Bool.and_eq_true, decide_eq_true_eq, ne_eq]
    refine ⟨⟨by omega, ?_⟩, ?_⟩
    · rintro rfl
      exact absurd range (by decide)
    · rintro rfl
      exact absurd range (by decide)

theorem plainText_of_isBytesOf
    {length : Nat}
    (isBytes : isBytesOf text length = true) :
    PlainText text ∧ text.toList.length = (length * 4 + 2) / 3 := by
  unfold isBytesOf at isBytes
  split at isBytes
  · next bytes decoded =>
      rw [decide_eq_true_eq] at isBytes
      obtain ⟨rfl, _⟩ := Base64url.decode_eq_some.mp decoded
      rw [PlainText, Base64url.encode, String.toList_ofList, length_map,
        Base64url.length_digits, isBytes]
      refine ⟨?_, rfl⟩
      rw [all_map, all_eq_true]
      intro digit member
      have all : ∀ digit < 64, isPlain (Base64url.charOf digit) = true := by
        decide
      exact all digit (Base64url.lt_of_mem_digits member)
  · simp at isBytes

theorem length_compact_uuid
    (isId : isUuid text = true) :
    (Json.compact (.text text)).length = 38 := by
  obtain ⟨plain, length⟩ := plainText_of_isUuid isId
  rw [plain.length_compact, length]

theorem length_compact_digest
    (isBytes : isBytesOf text 32 = true) :
    (Json.compact (.text text)).length = 45 := by
  obtain ⟨plain, length⟩ := plainText_of_isBytesOf isBytes
  rw [plain.length_compact, length]

/-- A valid row's parts keep to the grammar. -/
theorem RosterArea.Valid.grammatical_parts
    {format : RosterFormat}
    {area : RosterArea}
    (valid : area.Valid format) :
    grammatical (area.parts format) 2 = true := by
  have id := (plainText_of_isUuid valid.workspaceId).1
  have safe := valid.version_le
  cases format with
  | one =>
    cases retired : area.retired with
    | true =>
      simpa using (valid.retired retired).1
    | false =>
      have key := (plainText_of_isBytesOf (valid.commitment retired)).1
      simp only [RosterArea.parts, grammatical, allGrammatical,
        Bool.and_eq_true, decide_eq_true_eq, and_true]
      exact ⟨by decide, id, safe, key⟩
  | two =>
    cases retired : area.retired with
    | true =>
      simp only [RosterArea.parts, retired, ↓reduceIte, grammatical,
        allGrammatical, Bool.and_eq_true, decide_eq_true_eq, and_true]
      exact ⟨by decide, id, safe, by decide⟩
    | false =>
      obtain ⟨root, isRoot, digest⟩ := valid.root retired rfl
      have key := (plainText_of_isBytesOf (valid.commitment retired)).1
      have rootKey := (plainText_of_isBytesOf digest).1
      simp only [RosterArea.parts, retired, Bool.false_eq_true,
        ↓reduceIte, grammatical, allGrammatical, Bool.and_eq_true,
        decide_eq_true_eq, and_true, isRoot, Option.getD_some]
      exact ⟨by decide, id, safe, by decide, key, rootKey⟩

/-- A valid row takes at most 155 characters. -/
theorem RosterArea.Valid.length_parts
    {format : RosterFormat}
    {area : RosterArea}
    (valid : area.Valid format) :
    (Json.compact (area.parts format)).length ≤ 155 := by
  have id := length_compact_uuid valid.workspaceId
  have number := Json.length_compact_number_le valid.version_le
  have keyTag : (Json.compact (.text KEY_ROW)).length = 5 := by decide
  have retiredTag : (Json.compact (.text RETIRED_ROW)).length = 9 := by decide
  cases format with
  | one =>
    cases retired : area.retired with
    | true =>
      simpa using (valid.retired retired).1
    | false =>
      have key := length_compact_digest (valid.commitment retired)
      rw [RosterArea.parts, Json.compact]
      simp only [Json.compactItems, length_cons, length_append,
        length_nil, id, key]
      omega
  | two =>
    cases retired : area.retired with
    | true =>
      simp only [RosterArea.parts, retired, ↓reduceIte]
      rw [Json.compact]
      simp only [Json.compactItems, length_cons, length_append,
        length_nil, id, retiredTag]
      omega
    | false =>
      obtain ⟨root, isRoot, digest⟩ := valid.root retired rfl
      have key := length_compact_digest (valid.commitment retired)
      have rootKey := length_compact_digest digest
      simp only [RosterArea.parts, retired, Bool.false_eq_true,
        ↓reduceIte, isRoot, Option.getD_some]
      rw [Json.compact]
      simp only [Json.compactItems, length_cons, length_append,
        length_nil, id, key, rootKey, keyTag]
      omega

/-- A valid member's parts keep to the grammar. -/
theorem RosterMember.Valid.grammatical_parts
    (valid : member.Valid kind rosterVersion) :
    grammatical member.parts 2 = true := by
  have status : PlainText member.status.name := by
    cases member.status <;> decide
  have roles : allGrammatical
      (member.roles.map fun role => Json.Plain.text role.name) 4 = true := by
    rw [allGrammatical_iff]
    intro item inRoles
    obtain ⟨role, _, rfl⟩ := mem_map.mp inRoles
    cases role <;> decide
  simp only [RosterMember.parts, grammatical, allGrammatical,
    Bool.and_eq_true, decide_eq_true_eq, and_true]
  exact ⟨by decide, (plainText_of_isUuid valid.userId).1,
    valid.keyVersion_le,
    (plainText_of_isBytesOf valid.encryptionPublicKey).1,
    (plainText_of_isBytesOf valid.signingPublicKey).1,
    (plainText_of_isBytesOf valid.mlDsaPublicKeyDigest).1,
    (plainText_of_isBytesOf valid.kemPublicKeyDigest).1, status,
    ⟨by decide, roles⟩, valid.since_le⟩

theorem RosterMember.Valid.length_roles
    (valid : member.Valid kind rosterVersion) :
    member.roles.length ≤ 5 := by
  have distinct : member.roles.Nodup := by
    have names : (member.roles.map GroupRole.name).Nodup := by
      refine valid.roles_sorted.imp ?_
      rintro name _ before rfl
      exact Before.irrefl name before
    exact List.Nodup.of_map _ names
  have within : member.roles ⊆ ORG_ROLES := by
    intro role _
    cases role <;> decide
  exact (distinct.subperm within).length_le

/-- A valid member takes at most 335 characters. -/
theorem RosterMember.Valid.length_parts
    (valid : member.Valid kind rosterVersion) :
    (Json.compact member.parts).length ≤ 335 := by
  have status : (Json.compact (.text member.status.name)).length ≤ 8 := by
    cases member.status <;> decide
  have roles :
      (Json.compact (.list (member.roles.map fun role =>
        .text role.name))).length ≤ 67 := by
    have each :
        ∀ item ∈ member.roles.map fun role => Json.Plain.text role.name,
          (Json.compact item).length ≤ 12 := by
      intro item inRoles
      obtain ⟨role, _, rfl⟩ := mem_map.mp inRoles
      cases role <;> decide
    have bounded := Json.length_compact_list_le each
    have few := valid.length_roles
    rw [length_map] at bounded
    omega
  have id := length_compact_uuid valid.userId
  have keyVersion := Json.length_compact_number_le valid.keyVersion_le
  have encryption := length_compact_digest valid.encryptionPublicKey
  have signing := length_compact_digest valid.signingPublicKey
  have mlDsa := length_compact_digest valid.mlDsaPublicKeyDigest
  have kem := length_compact_digest valid.kemPublicKeyDigest
  have since := Json.length_compact_number_le valid.since_le
  rw [RosterMember.parts, Json.compact]
  simp only [Json.compactItems, length_cons, length_append,
    length_nil]
  omega

/-- The bytes of a roster's statement. -/
def Roster.bytes (roster : Roster) : Bytes :=
  Utf8.encode (Json.compact (.list roster.parts))

/-- A valid roster is always stated. -/
theorem rosterStatement_of_valid
    {roster : Roster}
    (valid : roster.Valid) :
    rosterStatement roster = .ok roster.bytes := by
  have digest : PlainText roster.previousRosterDigest ∧
      (Json.compact (.text roster.previousRosterDigest)).length ≤ 45 := by
    by_cases first : roster.rosterVersion = 1
    · rw [valid.first first]
      decide
    · have isDigest := valid.later first
      exact ⟨(plainText_of_isBytesOf isDigest).1,
        (length_compact_digest isDigest).le⟩
  have kind : PlainText roster.kind.name ∧
      (Json.compact (.text roster.kind.name)).length ≤ 8 := by
    cases roster.kind <;> decide
  have format : roster.format.number ≤ maxSafe ∧
      (Json.compact (.number roster.format.number)).length ≤ 16 := by
    have safe : roster.format.number ≤ maxSafe := by
      cases roster.format <;> decide
    exact ⟨safe, Json.length_compact_number_le safe⟩
  have members :
      (Json.compact
        (.list (roster.members.map RosterMember.parts))).length ≤
          3360002 := by
    have each : ∀ item ∈ roster.members.map RosterMember.parts,
        (Json.compact item).length ≤ 335 := by
      intro item inMembers
      obtain ⟨member, inRoster, rfl⟩ := mem_map.mp inMembers
      exact (valid.members member inRoster).length_parts
    have bounded := Json.length_compact_list_le each
    have few := valid.few
    rw [length_map] at bounded
    simp only [MAX_ROSTER_MEMBERS] at few
    omega
  have areas :
      (Json.compact
        (.list (roster.areas.map
          (RosterArea.parts roster.format)))).length ≤
          159746 := by
    have each : ∀ item ∈ roster.areas.map (RosterArea.parts roster.format),
        (Json.compact item).length ≤ 155 := by
      intro item inAreas
      obtain ⟨area, inRoster, rfl⟩ := mem_map.mp inAreas
      exact (valid.areas area inRoster).length_parts
    have bounded := Json.length_compact_list_le each
    have few := valid.rows_few
    rw [length_map] at bounded
    simp only [MAX_ROSTER_AREA_ROWS] at few
    omega
  have kept : grammatical (.list roster.parts) 0 = true := by
    simp only [Roster.parts, grammatical, allGrammatical, Bool.and_eq_true,
      decide_eq_true_eq, and_true]
    refine ⟨by decide, by decide, format.1,
      (plainText_of_isUuid valid.groupId).1, kind.1, valid.version_le,
      digest.1, valid.keyVersion_le,
      (plainText_of_isUuid valid.signerUserId).1, ⟨by decide, ?_⟩,
      ⟨by decide, ?_⟩⟩
    · rw [allGrammatical_iff]
      intro item inMembers
      obtain ⟨member, inRoster, rfl⟩ := mem_map.mp inMembers
      exact (valid.members member inRoster).grammatical_parts
    · rw [allGrammatical_iff]
      intro item inAreas
      obtain ⟨area, inRoster, rfl⟩ := mem_map.mp inAreas
      exact (valid.areas area inRoster).grammatical_parts
  have domain : (Json.compact (.text ROSTER_DOMAIN)).length = 21 := by decide
  have version := Json.length_compact_number_le valid.version_le
  have keyVersion := Json.length_compact_number_le valid.keyVersion_le
  have group := length_compact_uuid valid.groupId
  have signer := length_compact_uuid valid.signerUserId
  have short :
      (Json.compact (.list roster.parts)).length ≤ MAX_STATEMENT_BYTES := by
    have limit : MAX_STATEMENT_BYTES = 4194304 := rfl
    have digestShort := digest.2
    have kindShort := kind.2
    have formatShort := format.2
    rw [Roster.parts, Json.compact]
    simp only [Json.compactItems, length_cons, length_append,
      length_nil]
    omega
  exact rosterStatement_eq_ok.mpr
    ⟨valid, encodeStatement_of_short kept short⟩

theorem parseRoster_bytes
    {roster : Roster}
    (valid : roster.Valid) :
    parseRoster roster.bytes = .ok roster :=
  parseRoster_eq_ok.mpr (rosterStatement_of_valid valid)

theorem Roster.Valid.eq_of_bytes
    {first second : Roster}
    (firstValid : first.Valid)
    (secondValid : second.Valid)
    (same : first.bytes = second.bytes) :
    first = second := by
  have read := parseRoster_bytes firstValid
  rw [same, parseRoster_bytes secondValid] at read
  exact (Except.ok.inj read).symm

/-- The bytes of a succession's statement. -/
def GroupKeySuccession.bytes (succession : GroupKeySuccession) : Bytes :=
  Utf8.encode (Json.compact (.list succession.parts))

/-- A valid succession is always stated. -/
theorem groupSuccessionStatement_of_valid
    {succession : GroupKeySuccession}
    (valid : succession.Valid) :
    groupSuccessionStatement succession = .ok succession.bytes := by
  have longKey {text : String}
      (isBytes : isBytesOf text ML_DSA_PUBLIC_KEY_BYTES = true) :
      PlainText text ∧ (Json.compact (.text text)).length = 2605 := by
    obtain ⟨plain, length⟩ := plainText_of_isBytesOf isBytes
    exact ⟨plain, by rw [plain.length_compact, length]; rfl⟩
  have oldKey := longKey valid.oldMlDsaPublicKey
  have newKey := longKey valid.newMlDsaPublicKey
  have oldSafe : succession.oldVersion ≤ maxSafe := by
    have newSafe := valid.new_le
    have next := valid.new_eq
    omega
  have kept : grammatical (.list succession.parts) 0 = true := by
    simp only [GroupKeySuccession.parts, grammatical, allGrammatical,
      Bool.and_eq_true, decide_eq_true_eq, and_true]
    exact ⟨by decide, by decide, by decide,
      (plainText_of_isUuid valid.groupId).1, oldSafe, valid.new_le,
      (plainText_of_isBytesOf valid.oldEd25519PublicKey).1, oldKey.1,
      (plainText_of_isBytesOf valid.newEd25519PublicKey).1, newKey.1,
      valid.tie_le,
      (plainText_of_isBytesOf valid.lastRosterDigest).1,
      (plainText_of_isUuid valid.signerUserId).1⟩
  have short :
      (Json.compact (.list succession.parts)).length ≤
        MAX_STATEMENT_BYTES := by
    have limit : MAX_STATEMENT_BYTES = 4194304 := rfl
    have domain :
        (Json.compact (.text SUCCESSION_DOMAIN)).length = 29 := by decide
    have format : (Json.compact (.number 1)).length = 1 := by decide
    have group := length_compact_uuid valid.groupId
    have old := Json.length_compact_number_le oldSafe
    have oldShort := length_compact_digest valid.oldEd25519PublicKey
    have new := Json.length_compact_number_le valid.new_le
    have newShort := length_compact_digest valid.newEd25519PublicKey
    have tie := Json.length_compact_number_le valid.tie_le
    have digest := length_compact_digest valid.lastRosterDigest
    have signer := length_compact_uuid valid.signerUserId
    have oldLong := oldKey.2
    have newLong := newKey.2
    rw [GroupKeySuccession.parts, Json.compact]
    simp only [Json.compactItems, length_cons, length_append,
      length_nil]
    omega
  exact groupSuccessionStatement_eq_ok.mpr
    ⟨valid, encodeStatement_of_short kept short⟩

end HushOS
