import HushOS.Toolkit.Keyset
import HushOS.Toolkit.OrderedMap
import HushOS.Toolkit.ScriptWrite

namespace Toolkit

open List OrderedMap

namespace Script

/-!
# Objects as JavaScript keeps them

An object has a value at each key, a key put again keeping its place.  Its own
keys are listed with the array indices first, in their order, then the others
as they were put.  How many bytes an object is written with does not depend on
the order of its fields.
-/

/-- The text of an ASCII word. -/
def asciiText (word : String) : Text :=
  word.toList.map unit

/-- The object fields make: of a key named twice the last value counts. -/
def objectOf (fields : List (Text × Value)) : OrderedMap Text Value :=
  fields.foldl (fun made field => made.set field.1 field.2) .empty

/-- A value that is text. -/
def textOf : Value → Option Text
  | .string text => some text
  | _ => none

/-- A text by its units, as strings are compared. -/
def order (text : Text) : List Nat :=
  text.map UInt16.toNat

/-- The array index a key is, if it is one. -/
def index? (key : Text) : Option Nat :=
  if key.all fun unit => (digit? unit).isSome then
    match key.filterMap digit? with
    | [] => none
    | first :: rest =>
      let value := ofDigits (first :: rest)
      if first = 0 ∧ rest ≠ [] ∨ 2 ^ 32 - 1 ≤ value then none else some value
  else
    none

/-- `Object.entries`: the array indices first, in their order. -/
def entriesOf (object : OrderedMap Text α) : List (Text × α) :=
  Keyset.inOrder (fun field => (index? field.1).getD 0)
      (object.entries.filter fun field => (index? field.1).isSome) ++
    object.entries.filter fun field => !(index? field.1).isSome

variable {fields : List (Text × Value)} {unit : UInt16} {text : Text}

/-- Setting distinct new fields adds them in order. -/
theorem entries_foldl_set
    {made : OrderedMap Text Value}
    (distinct : (made.keys ++ fields.map Prod.fst).Nodup) :
    (fields.foldl (fun made field => made.set field.1 field.2) made).entries =
      made.entries ++ fields := by
  induction fields generalizing made with
  | nil => exact (append_nil _).symm
  | cons field rest inductionHypothesis =>
    have new : field.1 ∉ made.keys := fun listed =>
      (nodup_append.mp distinct).2.2 _ listed _ mem_cons_self rfl
    have entries := @OrderedMap.entries_set_of_new _ _ _ made field.1 field.2 new
    have keys : (made.set field.1 field.2).keys = made.keys ++ [field.1] := by
      rw [keys_set, if_neg new]
    rw [foldl_cons, inductionHypothesis, entries, append_assoc]
    · rfl
    · rw [keys, append_assoc]
      exact distinct

theorem entries_objectOf
    (distinct : (fields.map Prod.fst).Nodup) :
    (objectOf fields).entries = fields :=
  entries_foldl_set distinct

theorem entriesOf_perm (object : OrderedMap Text α) :
    (entriesOf object).Perm object.entries := by
  rw [entriesOf]
  exact (Keyset.inOrder_perm.append_right _).trans (filter_append_perm _ _)

theorem entriesOf_concat
    {object : OrderedMap Text α}
    {before : List (Text × α)}
    {field : Text × α}
    (entries : object.entries = before ++ [field])
    (plain : index? field.1 = none) :
    ∃ front, entriesOf object = front ++ [field] := by
  have last : [field].filter (fun field => !(index? field.1).isSome) = [field] := by
    rw [filter_singleton, plain]
    rfl
  have apart : object.entries.filter (fun field => !(index? field.1).isSome) =
      before.filter (fun field => !(index? field.1).isSome) ++ [field] := by
    rw [entries, filter_append, last]
  rw [entriesOf, apart, ← append_assoc]
  exact ⟨_, rfl⟩

theorem index?_eq_none
    {key : Text}
    (member : unit ∈ key)
    (other : digit? unit = none) :
    index? key = none := by
  refine if_neg fun all_ => ?_
  have digit := all_eq_true.mp all_ unit member
  rw [other] at digit
  cases digit

/-- The bytes of a text in UTF-8. -/
def bytes (text : Text) : Nat :=
  (encode text).length

theorem bytes_append
    (complete : Complete text)
    (rest : Text) :
    bytes (text ++ rest) = bytes text + bytes rest := by
  rw [bytes, complete.encode, length_append]
  rfl

/-- An ASCII unit takes one byte. -/
theorem bytes_cons
    (ascii : unit.toNat < 128)
    (rest : Text) :
    bytes (unit :: rest) = bytes rest + 1 := by
  have one : bytes [unit] = 1 := by
    have notHigh : isHigh unit = false := by
      simp only [isHigh, Bool.and_eq_false_iff, decide_eq_false_iff_not]
      omega
    have notLow : isLow unit = false := by
      simp only [isLow, Bool.and_eq_false_iff, decide_eq_false_iff_not]
      omega
    have value : (Char.ofNat unit.toNat).toNat = unit.toNat :=
      toNat_ofNat (.inl (by omega))
    have small : (Char.ofNat unit.toNat).val ≤ 0x7f :=
      UInt32.le_iff_toNat_le.mpr (value.le.trans (Nat.le_of_lt_succ ascii))
    rw [bytes, encode, chars, unitChar, notHigh, notLow, Utf8.encode,
      flatMap_singleton, String.length_utf8EncodeChar]
    exact if_pos small
  rw [← singleton_append, bytes_append (complete_below (by omega)), one,
    Nat.add_comm]

/-- The bytes of a field. -/
def fieldBytes (field : Text × Value) : Nat :=
  bytes (quoted field.1).text + bytes (write field.2) + 1

/-- The bytes of fields, each with what is written before it. -/
def fieldsBytes (fields : List (Text × Value)) : Nat :=
  (fields.map fun field => fieldBytes field + 1).sum

/-- Written fields take the bytes of each and of their commas. -/
theorem bytes_writeFields
    {fields : List (Text × Value)}
    (some_ : fields ≠ []) :
    bytes (writeFields fields) + 1 = fieldsBytes fields := by
  induction fields with
  | nil => exact absurd rfl some_
  | cons field rest inductionHypothesis =>
    obtain ⟨key, value⟩ := field
    cases rest with
    | nil =>
      rw [writeFields, bytes_append (complete_text_quoted key),
        bytes_cons (by decide), fieldsBytes]
      simp only [map_cons, map_nil, sum_cons, sum_nil, fieldBytes]
      omega
    | cons next rest =>
      have later := inductionHypothesis (cons_ne_nil next rest)
      rw [writeFields, bytes_append (complete_text_quoted key),
        bytes_cons (by decide), bytes_append (complete_write value),
        bytes_cons (by decide), fieldsBytes, map_cons, sum_cons]
      rw [fieldsBytes] at later
      simp only [fieldBytes] at later ⊢
      omega

theorem bytes_object
    (some_ : fields ≠ []) :
    bytes (write (.object fields)) = fieldsBytes fields + 1 := by
  have whole := bytes_writeFields some_
  have close : bytes [125] = 1 := by decide
  rw [write, bytes_cons (by decide), bytes_append (complete_writeFields fields), close]
  omega

theorem bytes_empty : bytes (write (.object [])) = 2 := by
  decide

theorem fieldsBytes_perm
    {first second : List (Text × Value)}
    (same : first.Perm second) :
    fieldsBytes first = fieldsBytes second :=
  (same.map _).sum_eq

theorem fieldsBytes_append (first second : List (Text × Value)) :
    fieldsBytes (first ++ second) = fieldsBytes first + fieldsBytes second := by
  rw [fieldsBytes, map_append, sum_append]
  rfl

theorem fieldsBytes_cons (field : Text × Value) (rest : List (Text × Value)) :
    fieldsBytes (field :: rest) = fieldBytes field + 1 + fieldsBytes rest := by
  rw [fieldsBytes, map_cons, sum_cons]
  rfl

theorem fieldsBytes_sublist
    {fewer fields : List (Text × Value)}
    (among : fewer.Sublist fields) :
    fieldsBytes fewer ≤ fieldsBytes fields := by
  induction among with
  | slnil => exact Nat.le_refl _
  | cons field _ inductionHypothesis =>
    rw [fieldsBytes_cons field]
    omega
  | cons_cons field _ inductionHypothesis =>
    rw [fieldsBytes_cons field, fieldsBytes_cons field]
    omega

theorem fieldBytes_le
    {field : Text × Value}
    (member : field ∈ fields) :
    fieldBytes field + 2 ≤ bytes (write (.object fields)) := by
  have among := fieldsBytes_sublist (singleton_sublist.mpr member)
  rw [fieldsBytes_cons, fieldsBytes, map_nil, sum_nil] at among
  rw [bytes_object (ne_nil_of_mem member)]
  omega

theorem bytes_object_le
    {fewer fields : List (Text × Value)}
    (among : fewer.Sublist fields) :
    bytes (write (.object fewer)) ≤ bytes (write (.object fields)) := by
  have sum := fieldsBytes_sublist among
  cases fewer with
  | nil =>
    cases fields with
    | nil => exact Nat.le_refl _
    | cons field rest =>
      have own := fieldBytes_le (mem_cons_self : field ∈ field :: rest)
      rw [bytes_empty]
      omega
  | cons field rest =>
    have some_ : fields ≠ [] := by
      rintro rfl
      cases among
    rw [bytes_object (cons_ne_nil field rest), bytes_object some_]
    omega

/-- Dropping a field frees at least the field's bytes. -/
theorem bytes_object_filter
    {fields : List (Text × Value)}
    {test : Text × Value → Bool}
    {field : Text × Value}
    (member : field ∈ fields)
    (fails : test field = false) :
    bytes (write (.object (fields.filter test))) + fieldBytes field ≤
      bytes (write (.object fields)) := by
  obtain ⟨front, back, rfl⟩ := append_of_mem member
  have apart : (front ++ field :: back).filter test =
      (front ++ back).filter test := by
    rw [filter_append, filter_append,
      filter_cons_of_neg (by rw [fails]; exact Bool.false_ne_true)]
  have whole : fieldsBytes (front ++ field :: back) =
      fieldsBytes (front ++ back) + (fieldBytes field + 1) := by
    rw [fieldsBytes_append, fieldsBytes_cons, fieldsBytes_append]
    omega
  have sum := fieldsBytes_sublist (@List.filter_sublist _ test (front ++ back))
  rw [apart, bytes_object (ne_nil_of_mem member), whole]
  cases kept : (front ++ back).filter test with
  | nil =>
    rw [bytes_empty]
    omega
  | cons other rest =>
    rw [kept] at sum
    rw [bytes_object (cons_ne_nil other rest)]
    omega

theorem length_units_le (char : Char) : (units char).length ≤ char.utf8Size := by
  rw [units]
  split
  · exact Char.utf8Size_pos char
  · next large =>
      have past (bound : UInt32) (within : bound.toNat < 0x10000) : ¬ char.val ≤ bound := by
        intro small
        exact large (lt_of_le_of_lt (UInt32.le_iff_toNat_le.mp small) within)
      have four : char.utf8Size = 4 :=
        (if_neg (past 0x7F (by decide))).trans
          ((if_neg (past 0x7FF (by decide))).trans (if_neg (past 0xFFFF (by decide))))
      rw [four]
      exact (by decide : 2 ≤ 4)

theorem length_encode_cons (char : Char) (rest : List Char) :
    (Utf8.encode (char :: rest)).length = char.utf8Size + (Utf8.encode rest).length := by
  rw [Utf8.encode, flatMap_cons, length_append, String.length_utf8EncodeChar]
  rfl

/-- A text has no more units than bytes. -/
theorem length_le_bytes (text : Text) : text.length ≤ bytes text := by
  rw [bytes, encode]
  fun_induction chars text with
  | case1 => exact Nat.le_refl _
  | case2 unit =>
    have one := Char.utf8Size_pos (unitChar unit)
    rw [length_encode_cons]
    exact Nat.le_add_right_of_le one
  | case3 unit next rest pair inductionHypothesis =>
    rw [Bool.and_eq_true] at pair
    have two := length_units_le (pairChar unit next)
    rw [units_pairChar pair.1 pair.2] at two
    rw [length_encode_cons, length_cons, length_cons]
    simp only [length_cons, length_nil] at two
    omega
  | case4 unit next rest pair inductionHypothesis =>
    have one := Char.utf8Size_pos (unitChar unit)
    rw [length_encode_cons, length_cons]
    omega

/-- A unit a string holds as it is, in ASCII. -/
def Plain (unit : UInt16) : Prop :=
  unit.toNat < 127 ∧ Raw unit

instance (unit : UInt16) : Decidable (Plain unit) :=
  inferInstanceAs (Decidable (_ ∧ _))

theorem length_piece_pos (piece : Piece) : 0 < piece.text.length := by
  cases piece with
  | _ => exact Nat.succ_pos _

theorem length_body_le (literal : Literal) : literal.length ≤ literal.body.length := by
  induction literal with
  | nil => exact Nat.le_refl _
  | cons piece rest inductionHypothesis =>
    have one := length_piece_pos piece
    have whole : Literal.body (piece :: rest) = piece.text ++ Literal.body rest :=
      flatMap_cons
    rw [whole, length_append, length_cons]
    omega

theorem length_le_bytes_quoted (text : Text) :
    text.length + 2 ≤ bytes (quoted text).text := by
  have units : (quoted text).length = text.length := by
    have decoded := congrArg List.length (decoded_quoted text)
    rw [Literal.decoded, length_map] at decoded
    exact decoded
  have body := length_body_le (quoted text)
  have whole := length_le_bytes (quoted text).text
  rw [Literal.text] at whole ⊢
  rw [length_cons, length_append, length_singleton] at whole
  omega

theorem text_pieceOf_plain
    (plain : Plain unit) :
    (pieceOf (isHigh unit || isLow unit) unit).text = [unit] ∧
      (isHigh unit || isLow unit) = false := by
  obtain ⟨ascii, raw⟩ := plain
  have apart (other : UInt16) (below : other.toNat < 32) : unit ≠ other := by
    rintro rfl
    exact absurd raw.1 (Nat.not_le.mpr below)
  have single : (isHigh unit || isLow unit) = false := by
    simp only [isHigh, isLow, Bool.or_eq_false_iff, Bool.and_eq_false_iff,
      decide_eq_false_iff_not]
    omega
  refine ⟨?_, single⟩
  rw [single, pieceOf, if_neg raw.2.1, if_neg raw.2.2, if_neg (apart 8 (by decide)),
    if_neg (apart 12 (by decide)), if_neg (apart 10 (by decide)),
    if_neg (apart 13 (by decide)), if_neg (apart 9 (by decide)),
    if_neg Bool.false_ne_true, dif_pos raw]
  rfl

/-- Plain text is quoted as it stands. -/
theorem body_quoted_plain
    (plain : ∀ unit ∈ text, Plain unit) :
    (quoted text).body = text := by
  fun_induction quoted text with
  | case1 => rfl
  | case2 unit =>
    rw [Literal.body, flatMap_singleton]
    exact (text_pieceOf_plain (plain unit mem_cons_self)).1
  | case3 unit next rest pair inductionHypothesis =>
    have single := (text_pieceOf_plain (plain unit mem_cons_self)).2
    rw [Bool.or_eq_false_iff] at single
    rw [single.1, Bool.false_and] at pair
    cases pair
  | case4 unit next rest pair inductionHypothesis =>
    have first := (text_pieceOf_plain (plain unit mem_cons_self)).1
    have later := inductionHypothesis fun other member =>
      plain other (mem_cons_of_mem _ member)
    rw [Literal.body] at later
    rw [Literal.body, flatMap_cons, first, later]
    rfl

theorem bytes_plain
    (plain : ∀ unit ∈ text, Plain unit) :
    bytes text = text.length := by
  induction text with
  | nil => rfl
  | cons unit rest inductionHypothesis =>
    have ascii := (plain unit mem_cons_self).1
    rw [bytes_cons (by omega), length_cons,
      inductionHypothesis fun other member => plain other (mem_cons_of_mem _ member)]

theorem bytes_quoted_plain
    (plain : ∀ unit ∈ text, Plain unit) :
    bytes (quoted text).text = text.length + 2 := by
  have complete : Complete text := complete_all_below fun unit member => by
    have ascii := (plain unit member).1
    omega
  have quote : bytes [34] = 1 := by decide
  rw [Literal.text, body_quoted_plain plain, bytes_cons (by decide),
    bytes_append complete, quote, bytes_plain plain]

end Script

end Toolkit
