import HushOS.Canonical
import HushOS.Toolkit.Serde

namespace HushOS

open Toolkit

/-!
# The core's statement encoding

The encoding the Rust core reads and writes, over the values its JSON library
gives.  What a statement is, `Encodes`, is said once and without either
program: `statements_oneEncoding` shows that both twins accept those bytes for
those values and no others.
-/

namespace Core

/-- Why an operation of the core refused. -/
inductive CoreError where
  | input (message : String)
  | opaque_ (message : String)
  | sealed (message : String)
  deriving DecidableEq, Repr

def MAX_STATEMENT_INTEGER : Nat := 2 ^ 53 - 1

def MAX_STATEMENT_BYTES : Nat := 4 * 1024 * 1024

/-- A byte of printable ASCII other than the quote and the backslash. -/
def isPlainByte (byte : UInt8) : Bool :=
  0x20 ≤ byte.toNat && byte.toNat ≤ 0x7e && byte ≠ 0x22 && byte ≠ 0x5c

mutual

/-- Whether a value keeps the statement grammar at a nesting depth. -/
def grammatical : Serde.Value → Nat → Bool
  | .string text, _ => (Utf8.encode text.toList).all isPlainByte
  | .number (.posInt value), _ => value ≤ MAX_STATEMENT_INTEGER
  | .array items, depth => depth < 4 && allGrammatical items (depth + 1)
  | _, _ => false

/-- Whether every one of some values keeps the statement grammar. -/
def allGrammatical : List Serde.Value → Nat → Bool
  | [], _ => true
  | item :: rest, depth => grammatical item depth && allGrammatical rest depth

end

/-- What a failed check says. -/
def invalid (what : String) : CoreError :=
  .input s!"Invalid {what}."

/--
The compact JSON array of values, when each is a text, an unsigned integer or
an array of these: the only ones asked for.
-/
def context (parts : List Serde.Value) : Option Bytes :=
  (Serde.plainItems? parts).map fun plain =>
    Utf8.encode (Json.compact (.list plain))

/-- The bytes of a statement's parts, or refused outside the grammar. -/
def encodeStatement (parts : List Serde.Value) : Except CoreError Bytes :=
  if allGrammatical parts 1 = false then
    .error (invalid "statement")
  else
    match context parts with
    | some bytes =>
      if MAX_STATEMENT_BYTES < bytes.length then
        .error (invalid "statement")
      else
        .ok bytes
    | none => .error (invalid "statement")

/-- The parts a statement's bytes hold, or refused. -/
def parseStatement (bytes : Bytes) (what : String) :
    Except CoreError (List Serde.Value) :=
  if MAX_STATEMENT_BYTES < bytes.length then
    .error (invalid what)
  else
    match Serde.fromSlice bytes with
    | some (.array parts) =>
      if allGrammatical parts 1 = true ∧ context parts = some bytes then
        .ok parts
      else
        .error (invalid what)
    | _ => .error (invalid what)

end Core

mutual

/-- A value made of plain printable texts and safe integers. -/
def OfGrammar : Json.Plain → Prop
  | .text value =>
    ∀ char ∈ value.toList,
      0x20 ≤ char.toNat ∧ char.toNat ≤ 0x7e ∧ char ≠ '"' ∧ char ≠ '\\'
  | .number value => value ≤ 2 ^ 53 - 1
  | .list items => ItemsOfGrammar items

/-- Values all made of plain printable texts and safe integers. -/
def ItemsOfGrammar : List Json.Plain → Prop
  | [] => True
  | item :: rest => OfGrammar item ∧ ItemsOfGrammar rest

end

/-- The bytes are the encoding of an array of parts that is a statement. -/
structure Encodes (parts : List Json.Plain) (bytes : Bytes) : Prop where
  short : bytes.length ≤ 4 * 1024 * 1024
  shallow : Serde.height (.list parts) ≤ 4
  grammar : OfGrammar (.list parts)
  compact : bytes = Utf8.encode (Json.compact (.list parts))

mutual

/-- A value passes the grammar check when its shape and depth allow. -/
theorem grammatical_iff_ofGrammar
    (plain : Json.Plain)
    {depth : Nat}
    (shallow : depth ≤ 4) :
    grammatical plain depth = true ↔
      OfGrammar plain ∧ depth + Serde.height plain ≤ 4 := by
  cases plain with
  | text value =>
    simp [grammatical, OfGrammar, Serde.height, isPlain, shallow,
      and_assoc]
  | number value =>
    have same : grammatical (.number value) depth = true ↔
        value ≤ 2 ^ 53 - 1 :=
      decide_eq_true_iff
    simp only [same, OfGrammar, Serde.height, Nat.add_zero, shallow,
      and_true]
  | list items =>
    simp only [grammatical, OfGrammar, Serde.height, Bool.and_eq_true,
      decide_eq_true_eq]
    constructor
    · rintro ⟨room, kept⟩
      obtain ⟨within, levels⟩ :=
        (allGrammatical_iff_ofGrammar items (Nat.succ_le_of_lt room)).mp kept
      exact ⟨within, by omega⟩
    · rintro ⟨within, levels⟩
      have room : depth + 1 ≤ 4 := by
        omega
      have kept :=
        (allGrammatical_iff_ofGrammar items room).mpr ⟨within, by omega⟩
      exact ⟨room, kept⟩

theorem allGrammatical_iff_ofGrammar
    (items : List Json.Plain)
    {depth : Nat}
    (shallow : depth ≤ 4) :
    allGrammatical items depth = true ↔
      ItemsOfGrammar items ∧ depth + Serde.itemsHeight items ≤ 4 := by
  match items with
  | [] =>
    simp [allGrammatical, ItemsOfGrammar, Serde.itemsHeight, shallow]
  | item :: rest =>
    have first := grammatical_iff_ofGrammar item shallow
    have others := allGrammatical_iff_ofGrammar rest shallow
    have deepest :
        depth + max (Serde.height item) (Serde.itemsHeight rest) ≤ 4 ↔
          depth + Serde.height item ≤ 4 ∧
            depth + Serde.itemsHeight rest ≤ 4 := by
      omega
    simp only [allGrammatical, ItemsOfGrammar, Serde.itemsHeight,
      Bool.and_eq_true, first, others, deepest]
    exact and_and_and_comm

end

variable {parts : List Json.Plain} {bytes : Bytes}

theorem encodeStatement_iff_encodes :
    encodeStatement parts = .ok bytes ↔ Encodes parts bytes := by
  rw [encodeStatement_eq_ok, grammatical_iff_ofGrammar _ (Nat.zero_le 4)]
  constructor
  · rintro ⟨⟨grammar, shallow⟩, compact, short⟩
    exact ⟨short, by simpa using shallow, grammar, compact⟩
  · intro encodes
    exact ⟨⟨encodes.grammar, by simpa using encodes.shallow⟩,
      encodes.compact, encodes.short⟩

namespace Core

/-- A character's bytes are plain exactly when the character is. -/
theorem all_isPlainByte
    (char : Char) :
    (String.utf8EncodeChar char).all isPlainByte = isPlain char := by
  by_cases ascii : char.toNat ≤ 0x7f
  · have single :
        String.utf8EncodeChar char = [UInt8.ofNat char.toNat] := by
      unfold String.utf8EncodeChar
      exact if_pos ascii
    have back : (UInt8.ofNat char.toNat).toNat = char.toNat := by
      rw [UInt8.toNat_ofNat']
      omega
    have quote : UInt8.ofNat char.toNat = 0x22 ↔ char = '"' := by
      rw [← UInt8.toNat_inj, back, Char.ext_iff, ← UInt32.toNat_inj]
      rfl
    have slash : UInt8.ofNat char.toNat = 0x5c ↔ char = '\\' := by
      rw [← UInt8.toNat_inj, back, Char.ext_iff, ← UInt32.toNat_inj]
      rfl
    simp [single, isPlainByte, isPlain, back, quote, slash]
  · have wide : isPlain char = false := by
      have far : ¬ char.toNat ≤ 0x7e := by
        omega
      simp [isPlain, far]
    have high :
        ∃ byte ∈ String.utf8EncodeChar char, 0x80 ≤ byte.toNat := by
      have outside : ¬ char.val.toNat ≤ 0x7f := ascii
      unfold String.utf8EncodeChar
      rw [if_neg outside]
      split
      · exact ⟨_, List.mem_cons_self, by simp; omega⟩
      · split
        · exact ⟨_, List.mem_cons_self, by simp; omega⟩
        · exact ⟨_, List.mem_cons_self, by simp; omega⟩
    obtain ⟨byte, member, large⟩ := high
    rw [wide, List.all_eq_false]
    refine ⟨byte, member, ?_⟩
    have far : ¬ byte.toNat ≤ 0x7e := by
      omega
    simp [isPlainByte, far]

mutual

theorem grammatical_ofPlain
    (plain : Json.Plain)
    (depth : Nat) :
    grammatical (Serde.ofPlain plain) depth =
      HushOS.grammatical plain depth := by
  cases plain with
  | text value =>
    simp only [Serde.ofPlain, grammatical, HushOS.grammatical, Utf8.encode,
      List.all_flatMap, all_isPlainByte]
  | number value =>
    rfl
  | list items =>
    simp only [Serde.ofPlain, grammatical, HushOS.grammatical,
      allGrammatical_ofItems items (depth + 1)]

theorem allGrammatical_ofItems
    (items : List Json.Plain)
    (depth : Nat) :
    allGrammatical (Serde.ofItems items) depth =
      HushOS.allGrammatical items depth := by
  match items with
  | [] =>
    rfl
  | item :: rest =>
    simp only [Serde.ofItems, allGrammatical, HushOS.allGrammatical,
      grammatical_ofPlain item depth, allGrammatical_ofItems rest depth]

end

mutual

theorem exists_ofPlain
    (value : Serde.Value)
    (depth : Nat)
    (kept : grammatical value depth = true) :
    ∃ plain, value = Serde.ofPlain plain := by
  match value with
  | .null | .bool _ | .object _ | .number (.negInt _) | .number .float =>
    simp [grammatical] at kept
  | .number (.posInt value) =>
    exact ⟨.number value, rfl⟩
  | .string text =>
    exact ⟨.text text, rfl⟩
  | .array items =>
    simp only [grammatical, Bool.and_eq_true] at kept
    obtain ⟨plains, rfl⟩ := exists_ofItems items (depth + 1) kept.2
    exact ⟨.list plains, rfl⟩

theorem exists_ofItems
    (items : List Serde.Value)
    (depth : Nat)
    (kept : allGrammatical items depth = true) :
    ∃ plains, items = Serde.ofItems plains := by
  match items with
  | [] =>
    exact ⟨[], rfl⟩
  | item :: rest =>
    simp only [allGrammatical, Bool.and_eq_true] at kept
    obtain ⟨plain, rfl⟩ := exists_ofPlain item depth kept.1
    obtain ⟨others, rfl⟩ := exists_ofItems rest depth kept.2
    exact ⟨plain :: others, rfl⟩

end

theorem ofItems_injective
    {first second : List Json.Plain}
    (same : Serde.ofItems first = Serde.ofItems second) :
    first = second := by
  have read := Serde.plainItems?_ofItems first
  rw [same, Serde.plainItems?_ofItems second] at read
  exact (Option.some.inj read).symm

theorem context_ofItems
    (parts : List Json.Plain) :
    context (Serde.ofItems parts) =
      some (Utf8.encode (Json.compact (.list parts))) := by
  simp [context, Serde.plainItems?_ofItems]

theorem allGrammatical_ofItems_iff
    {parts : List Json.Plain} :
    allGrammatical (Serde.ofItems parts) 1 = true ↔
      OfGrammar (.list parts) ∧ Serde.height (.list parts) ≤ 4 := by
  rw [allGrammatical_ofItems,
    allGrammatical_iff_ofGrammar parts (by decide), OfGrammar, Serde.height]

/-- The encoder gives exactly the encodings of the grammar. -/
theorem encodeStatement_iff_encodes
    {values : List Serde.Value}
    {bytes : Bytes} :
    encodeStatement values = .ok bytes ↔
      ∃ parts, values = Serde.ofItems parts ∧ Encodes parts bytes := by
  constructor
  · intro encoded
    unfold encodeStatement at encoded
    split at encoded
    · simp at encoded
    · next kept =>
        rw [Bool.not_eq_false] at kept
        obtain ⟨parts, rfl⟩ := exists_ofItems values 1 kept
        obtain ⟨grammar, shallow⟩ := allGrammatical_ofItems_iff.mp kept
        rw [context_ofItems] at encoded
        simp only at encoded
        split at encoded
        · simp at encoded
        · next short =>
            simp only [Except.ok.injEq] at encoded
            subst encoded
            exact ⟨parts, rfl, Nat.not_lt.mp short, shallow, grammar, rfl⟩
  · rintro ⟨parts, rfl, encodes⟩
    have kept :=
      allGrammatical_ofItems_iff.mpr ⟨encodes.grammar, encodes.shallow⟩
    have short : ¬ MAX_STATEMENT_BYTES < bytes.length :=
      Nat.not_lt.mpr encodes.short
    unfold encodeStatement
    rw [if_neg (by simp [kept]), context_ofItems, ← encodes.compact]
    simp [short]

/-- The parser reads exactly the encodings of the grammar. -/
theorem parseStatement_iff_encodes
    {bytes : Bytes}
    {what : String}
    {values : List Serde.Value} :
    parseStatement bytes what = .ok values ↔
      ∃ parts, values = Serde.ofItems parts ∧ Encodes parts bytes := by
  constructor
  · intro accepted
    unfold parseStatement at accepted
    split at accepted
    · simp at accepted
    · next short =>
        split at accepted
        · next found _ =>
            split at accepted
            · next kept =>
                simp only [Except.ok.injEq] at accepted
                subst accepted
                obtain ⟨parts, rfl⟩ := exists_ofItems found 1 kept.1
                obtain ⟨grammar, shallow⟩ :=
                  allGrammatical_ofItems_iff.mp kept.1
                have compact := kept.2
                rw [context_ofItems, Option.some.injEq] at compact
                exact ⟨parts, rfl, Nat.not_lt.mp short, shallow, grammar,
                  compact.symm⟩
            · simp at accepted
        · simp at accepted
  · rintro ⟨parts, rfl, encodes⟩
    have kept :=
      allGrammatical_ofItems_iff.mpr ⟨encodes.grammar, encodes.shallow⟩
    have short : ¬ MAX_STATEMENT_BYTES < bytes.length :=
      Nat.not_lt.mpr encodes.short
    have printable : (Json.Plain.list parts).Printable :=
      printable_of_grammatical _ 0
        ((grammatical_iff_ofGrammar _ (Nat.zero_le 4)).mpr
          ⟨encodes.grammar, by simpa using encodes.shallow⟩)
    have read :=
      Serde.fromSlice_compact printable
        (lt_of_le_of_lt encodes.shallow (by decide))
    rw [← encodes.compact, Serde.ofPlain] at read
    have written : context (Serde.ofItems parts) = some bytes := by
      rw [context_ofItems, encodes.compact]
    simp [parseStatement, short, read, kept, written]

end Core

theorem Encodes.parts_unique
    {first second : List Json.Plain}
    (firstEncodes : Encodes first bytes)
    (secondEncodes : Encodes second bytes) :
    first = second :=
  encodeStatement_injective
    (encodeStatement_iff_encodes.mpr firstEncodes)
    (encodeStatement_iff_encodes.mpr secondEncodes)

theorem Encodes.bytes_unique
    {first second : Bytes}
    (firstEncodes : Encodes parts first)
    (secondEncodes : Encodes parts second) :
    first = second := by
  rw [firstEncodes.compact, secondEncodes.compact]

theorem parseStatement_iff_encodes
    {what : String} :
    parseStatement bytes what = .ok parts ↔ Encodes parts bytes :=
  parseStatement_eq_ok.trans encodeStatement_iff_encodes

/--
Both twins accept exactly the bytes that encode a statement, with the same
value; what either encodes it reads back, and what it reads it encodes to the
same bytes; so no two statements share bytes and none has two encodings.
-/
theorem statements_oneEncoding :
    (∀ bytes what parts,
      parseStatement bytes what = .ok parts ↔ Encodes parts bytes) ∧
    (∀ bytes what values,
      Core.parseStatement bytes what = .ok values ↔
        ∃ parts, values = Serde.ofItems parts ∧ Encodes parts bytes) ∧
    (∀ bytes what parts,
      encodeStatement parts = .ok bytes ↔
        parseStatement bytes what = .ok parts) ∧
    (∀ bytes what values,
      Core.encodeStatement values = .ok bytes ↔
        Core.parseStatement bytes what = .ok values) ∧
    (∀ first second bytes,
      (encodeStatement first = .ok bytes →
        encodeStatement second = .ok bytes → first = second)) ∧
    (∀ first second bytes,
      (Core.encodeStatement first = .ok bytes →
        Core.encodeStatement second = .ok bytes → first = second)) ∧
    (∀ first second what parts,
      (parseStatement first what = .ok parts →
        parseStatement second what = .ok parts → first = second)) ∧
    (∀ first second what values,
      (Core.parseStatement first what = .ok values →
        Core.parseStatement second what = .ok values → first = second)) := by
  refine ⟨fun _ _ _ => parseStatement_iff_encodes,
    fun _ _ _ => Core.parseStatement_iff_encodes,
    fun _ _ _ => parseStatement_eq_ok.symm,
    fun _ _ _ => ?_, fun _ _ _ => encodeStatement_injective, ?_, ?_, ?_⟩
  · rw [Core.encodeStatement_iff_encodes, Core.parseStatement_iff_encodes]
  · intro first second bytes firstEncoded secondEncoded
    obtain ⟨firstParts, rfl, firstEncodes⟩ :=
      Core.encodeStatement_iff_encodes.mp firstEncoded
    obtain ⟨secondParts, rfl, secondEncodes⟩ :=
      Core.encodeStatement_iff_encodes.mp secondEncoded
    rw [firstEncodes.parts_unique secondEncodes]
  · intro first second what parts firstAccepted secondAccepted
    exact (parseStatement_iff_encodes.mp firstAccepted).bytes_unique
      (parseStatement_iff_encodes.mp secondAccepted)
  · intro first second what values firstAccepted secondAccepted
    obtain ⟨firstParts, rfl, firstEncodes⟩ :=
      Core.parseStatement_iff_encodes.mp firstAccepted
    obtain ⟨secondParts, same, secondEncodes⟩ :=
      Core.parseStatement_iff_encodes.mp secondAccepted
    cases Core.ofItems_injective same
    exact firstEncodes.bytes_unique secondEncodes

end HushOS
