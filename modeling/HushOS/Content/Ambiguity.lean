import HushOS.Toolkit.ScriptAccept
import HushOS.Toolkit.ScriptWrite

namespace HushOS

open Toolkit List

namespace Content

/-!
# JSON that reads two ways

Where JavaScript keeps the last of a key named twice, the native core refuses
it, and a lone surrogate it cannot hold.  `ambiguousJson` looks for both in the
text itself, in one pass with a stack of the objects and arrays it is in.
-/

open Script (Text Part Document Literal Piece)

/-- A string's text up to its closing quote, and what follows the quote. -/
def closing : Text → Option (Text × Text)
  | [] => none
  | unit :: rest =>
    if unit = 34 then
      some ([], rest)
    else if unit = 92 then
      match rest with
      | [] => none
      | next :: later =>
        (closing later).map fun found =>
          (unit :: next :: found.1, found.2)
    else
      (closing rest).map fun found => (unit :: found.1, found.2)

theorem length_closing
    {text body after : Text}
    (found : closing text = some (body, after)) :
    after.length < text.length := by
  fun_induction closing text generalizing body after with
  | case1 => cases found
  | case2 rest =>
    cases found
    exact Nat.lt_succ_self _
  | case3 => cases found
  | case4 notQuote next later inductionHypothesis =>
    obtain ⟨⟨inner, left⟩, read, equal⟩ := Option.map_eq_some_iff.mp found
    cases equal
    have shorter := inductionHypothesis read
    simp only [length_cons]
    omega
  | case5 unit rest notQuote notSlash inductionHypothesis =>
    obtain ⟨⟨inner, left⟩, read, equal⟩ := Option.map_eq_some_iff.mp found
    cases equal
    have shorter := inductionHypothesis read
    simp only [length_cons]
    omega

/-- Whether the scan is in an object, not in an array or outside. -/
def inObject : List (Option (List Text)) → Bool
  | some _ :: _ => true
  | _ => false

/--
The scan of `ambiguousJson`, with the keys so far of each open object (none of
an array), and whether a key comes next.
-/
def ambiguousFrom
    (opened : List (Option (List Text)))
    (keyNext : Bool) : Text → Bool
  | [] => false
  | unit :: rest =>
    if unit = 34 then
      match found : closing rest with
      -- No accepted text ends within a string.
      | none => false
      | some (body, after) =>
        have _shorter := length_closing found
        match Script.parse (34 :: (body ++ [34])) with
        | some (.string decoded) =>
          if Script.lone decoded then
            true
          else
            match opened, keyNext with
            | some keys :: outer, true =>
              if keys.contains decoded then
                true
              else
                ambiguousFrom (some (keys ++ [decoded]) :: outer) false
                  after
            | _, _ => ambiguousFrom opened keyNext after
        | _ => false
    else if unit = 123 then
      ambiguousFrom (some [] :: opened) true rest
    else if unit = 91 then
      ambiguousFrom (none :: opened) false rest
    else if unit = 125 ∨ unit = 93 then
      ambiguousFrom opened.tail false rest
    else if unit = 44 then
      ambiguousFrom opened (inObject opened) rest
    else
      ambiguousFrom opened keyNext rest
  termination_by text => text.length

/-- `ambiguousJson`, of a text `JSON.parse` accepted. -/
def ambiguousJson (text : Text) : Bool :=
  ambiguousFrom [] false text

/-- A unit the scan passes over. -/
def Passed (unit : UInt16) : Prop :=
  unit ≠ 34 ∧ unit ≠ 123 ∧ unit ≠ 91 ∧ ¬ (unit = 125 ∨ unit = 93) ∧ unit ≠ 44

instance (unit : UInt16) : Decidable (Passed unit) :=
  inferInstanceAs (Decidable (_ ∧ _ ∧ _ ∧ _ ∧ _))

theorem ambiguousFrom_passed
    {opened : List (Option (List Text))}
    {keyNext : Bool}
    {text rest : Text}
    (passed : ∀ unit ∈ text, Passed unit) :
    ambiguousFrom opened keyNext (text ++ rest) =
      ambiguousFrom opened keyNext rest := by
  induction text with
  | nil => rfl
  | cons unit later inductionHypothesis =>
    obtain ⟨notQuote, notBrace, notBracket, notClose, notComma⟩ :=
      passed unit (by simp)
    rw [cons_append, ambiguousFrom, if_neg notQuote, if_neg notBrace,
      if_neg notBracket, if_neg notClose, if_neg notComma]
    exact inductionHypothesis fun other member => passed other (by simp [member])

theorem passed_gap (gap : Script.Gap) : ∀ unit ∈ gap.text, Passed unit := by
  intro unit member
  obtain ⟨space, _, rfl⟩ := mem_map.mp member
  cases space with
  | _ => decide

theorem passed_digit (digit : Fin 10) : Passed (Script.digitUnit digit) := by
  revert digit
  decide

theorem passed_digits (digits : Script.Digits) :
    ∀ unit ∈ digits.text, Passed unit := by
  intro unit member
  obtain ⟨digit, _, rfl⟩ := mem_map.mp member
  exact passed_digit digit

/-- No unit of a number's text opens or closes anything. -/
theorem passed_number (number : Script.Number) :
    ∀ unit ∈ number.text, Passed unit := by
  intro unit member
  obtain ⟨negative, whole, fraction, exponent⟩ := number
  rcases mem_append.mp member with sign | member
  · cases negative with
    | true =>
      rw [mem_singleton.mp sign]
      decide
    | false => cases sign
  · rcases mem_append.mp member with inWhole | member
    · exact passed_digits _ unit inWhole
    · rcases mem_append.mp member with inFraction | inExponent
      · cases fraction with
        | none => cases inFraction
        | some fraction =>
          rcases mem_cons.mp inFraction with rfl | inFraction
          · decide
          · exact passed_digits _ unit inFraction
      · cases exponent with
        | none => cases inExponent
        | some exponent =>
          obtain ⟨upper, sign, following⟩ := exponent
          rcases mem_cons.mp inExponent with rfl | inExponent
          · cases upper with
            | true => exact (by decide : Passed 69)
            | false => exact (by decide : Passed 101)
          · rcases mem_append.mp inExponent with inSign | inDigits
            · rcases sign with _ | minus
              · cases inSign
              · cases minus with
                | true =>
                  rw [mem_singleton.mp inSign]
                  decide
                | false =>
                  rw [mem_singleton.mp inSign]
                  decide
            · exact passed_digits _ unit inDigits

theorem hexDigit_apart (digit : Script.HexDigit) :
    digit.unit ≠ 34 ∧ digit.unit ≠ 92 := by
  obtain ⟨value, upper⟩ := digit
  revert value upper
  decide

/-- A string closes at the quote after its body. -/
theorem closing_body (literal : Literal) (rest : Text) :
    closing (literal.body ++ 34 :: rest) = some (literal.body, rest) := by
  have passes : ∀ (unit : UInt16) (text body after : Text),
      unit ≠ 34 → unit ≠ 92 → closing text = some (body, after) →
      closing (unit :: text) = some (unit :: body, after) := by
    intro unit text body after notQuote notSlash found
    rw [closing.eq_def]
    simp only [notQuote, notSlash, if_false, found, Option.map_some]
  have skips : ∀ (next : UInt16) (text body after : Text),
      closing text = some (body, after) →
      closing (92 :: next :: text) = some (92 :: next :: body, after) := by
    intro next text body after found
    rw [closing.eq_def]
    simp only [show (92 : UInt16) ≠ 34 by decide, if_false, if_true, found,
      Option.map_some]
  induction literal with
  | nil =>
    change closing (34 :: rest) = _
    rw [closing.eq_def]
    rfl
  | cons piece later inductionHypothesis =>
    have shape : Literal.body (piece :: later) =
        piece.text ++ Literal.body later :=
      flatMap_cons
    rw [shape, append_assoc]
    cases piece with
    | raw unit plain =>
      exact passes unit _ _ _ plain.2.1 plain.2.2 inductionHypothesis
    | escape letter => exact skips letter.letter _ _ _ inductionHypothesis
    | unicode first second third fourth =>
      refine skips 117 _ _ _ (passes _ _ _ _ ?_ ?_ (passes _ _ _ _ ?_ ?_
        (passes _ _ _ _ ?_ ?_ (passes _ _ _ _ ?_ ?_ inductionHypothesis))))
      · exact (hexDigit_apart first).1
      · exact (hexDigit_apart first).2
      · exact (hexDigit_apart second).1
      · exact (hexDigit_apart second).2
      · exact (hexDigit_apart third).1
      · exact (hexDigit_apart third).2
      · exact (hexDigit_apart fourth).1
      · exact (hexDigit_apart fourth).2

theorem parse_literal (literal : Literal) :
    Script.parse (34 :: (literal.body ++ [34])) =
      some (.string literal.decoded) := by
  have read := Script.parse_text ⟨[], .string literal, []⟩
  have shape : (⟨[], .string literal, []⟩ : Document).text =
      34 :: (literal.body ++ [34]) := by
    simp [Document.text, Part.text, Literal.text, Script.Gap.text]
  rw [shape] at read
  exact read

variable {opened : List (Option (List Text))} {seen : List Text} {keyNext : Bool}

theorem ambiguousFrom_string
    (literal : Literal)
    (rest : Text) :
    ambiguousFrom opened false (literal.text ++ rest) =
      (Script.lone literal.decoded || ambiguousFrom opened false rest) := by
  have shape : literal.text ++ rest = 34 :: (literal.body ++ 34 :: rest) := by
    simp [Literal.text]
  rw [shape, ambiguousFrom, if_pos rfl]
  split
  · next none_ =>
      rw [closing_body] at none_
      cases none_
  · next body after found =>
      rw [closing_body] at found
      obtain ⟨rfl, rfl⟩ := Prod.mk.inj (Option.some.inj found)
      simp only [parse_literal]
      cases alone : Script.lone literal.decoded with
      | true => rfl
      | false => cases opened with
        | nil => rfl
        | cons _ _ => rfl

/-- A key is flagged when it is lone or was seen in its object. -/
theorem ambiguousFrom_key
    {outer : List (Option (List Text))}
    (literal : Literal)
    (rest : Text) :
    ambiguousFrom (some seen :: outer) true (literal.text ++ rest) =
      (Script.lone literal.decoded || (seen.contains literal.decoded ||
        ambiguousFrom (some (seen ++ [literal.decoded]) :: outer) false rest)) := by
  have shape : literal.text ++ rest = 34 :: (literal.body ++ 34 :: rest) := by
    simp [Literal.text]
  rw [shape, ambiguousFrom, if_pos rfl]
  split
  · next none_ =>
      rw [closing_body] at none_
      cases none_
  · next body after found =>
      rw [closing_body] at found
      obtain ⟨rfl, rfl⟩ := Prod.mk.inj (Option.some.inj found)
      simp only [parse_literal]
      cases alone : Script.lone literal.decoded with
      | true => rfl
      | false =>
        cases again : seen.contains literal.decoded with
        | true => simp only [Bool.false_eq_true, if_false, if_true, Bool.true_or,
            Bool.or_true]
        | false => simp only [Bool.false_eq_true, if_false, Bool.false_or]

/-- What the scan of a part answers, with the keys its object had before. -/
def flagged : {kind : Script.Kind} → Part kind → List Text → Bool
  | _, .string literal, _ => Script.lone literal.decoded
  | _, .array items, _ => flagged items []
  | _, .object fields, _ => flagged fields []
  | _, .lastItem _ value _, _ => flagged value []
  | _, .item _ value _ rest, _ => flagged value [] || flagged rest []
  | _, .lastField _ key _ _ value _, seen =>
    Script.lone key.decoded || (seen.contains key.decoded || flagged value [])
  | _, .field _ key _ _ value _ rest, seen =>
    Script.lone key.decoded || (seen.contains key.decoded ||
      (flagged value [] || flagged rest (seen ++ [key.decoded])))
  | _, _, _ => false

/-- The objects and arrays open within a part. -/
def openedIn (seen : List Text) (opened : List (Option (List Text))) :
    Script.Kind → List (Option (List Text))
  | .value => opened
  | .items => none :: opened
  | .fields => some seen :: opened

/-- Whether a part begins with a key. -/
def keyFirst : Script.Kind → Bool
  | .fields => true
  | _ => false

variable {rest : Text}

theorem ambiguousFrom_unit
    {unit : UInt16}
    (passed : Passed unit) :
    ambiguousFrom opened keyNext (unit :: rest) =
      ambiguousFrom opened keyNext rest :=
  @ambiguousFrom_passed opened keyNext [unit] rest fun other member => by
    rw [mem_singleton.mp member]
    exact passed

theorem ambiguousFrom_gap
    {opened : List (Option (List Text))}
    {keyNext : Bool}
    (gap : Script.Gap)
    (rest : Text) :
    ambiguousFrom opened keyNext (gap.text ++ rest) =
      ambiguousFrom opened keyNext rest :=
  ambiguousFrom_passed (passed_gap gap)

theorem ambiguousFrom_close
    {unit : UInt16}
    (close : unit = 125 ∨ unit = 93) :
    ambiguousFrom opened keyNext (unit :: rest) =
      ambiguousFrom opened.tail false rest := by
  rcases close with rfl | rfl
  · rw [ambiguousFrom]
    rfl
  · rw [ambiguousFrom]
    rfl

theorem ambiguousFrom_comma :
    ambiguousFrom opened keyNext (44 :: rest) =
      ambiguousFrom opened (inObject opened) rest := by
  rw [ambiguousFrom]
  rfl

theorem ambiguousFrom_bracket :
    ambiguousFrom opened keyNext (91 :: rest) =
      ambiguousFrom (none :: opened) false rest := by
  rw [ambiguousFrom]
  rfl

theorem ambiguousFrom_brace :
    ambiguousFrom opened keyNext (123 :: rest) =
      ambiguousFrom (some [] :: opened) true rest := by
  rw [ambiguousFrom]
  rfl

/-- Scanning a part flags that part and goes on behind it. -/
theorem ambiguousFrom_part
    {kind : Script.Kind}
    (part : Part kind)
    (seen : List Text)
    (opened : List (Option (List Text)))
    (rest : Text) :
    ambiguousFrom (openedIn seen opened kind) (keyFirst kind)
        (part.text ++ rest) =
      (flagged part seen || ambiguousFrom opened false rest) := by
  induction part generalizing seen opened rest with
  | null =>
    have shape : Part.null.text ++ rest = 110 :: 117 :: 108 :: 108 :: rest := rfl
    rw [shape, ambiguousFrom_unit (by decide), ambiguousFrom_unit (by decide),
      ambiguousFrom_unit (by decide), ambiguousFrom_unit (by decide)]
    rfl
  | bool value =>
    cases value with
    | true =>
      have shape : (Part.bool true).text ++ rest =
          116 :: 114 :: 117 :: 101 :: rest := rfl
      rw [shape, ambiguousFrom_unit (by decide), ambiguousFrom_unit (by decide),
        ambiguousFrom_unit (by decide), ambiguousFrom_unit (by decide)]
      rfl
    | false =>
      have shape : (Part.bool false).text ++ rest =
          102 :: 97 :: 108 :: 115 :: 101 :: rest := rfl
      rw [shape, ambiguousFrom_unit (by decide), ambiguousFrom_unit (by decide),
        ambiguousFrom_unit (by decide), ambiguousFrom_unit (by decide),
        ambiguousFrom_unit (by decide)]
      rfl
  | number value => exact ambiguousFrom_passed (passed_number value)
  | string literal => exact ambiguousFrom_string literal rest
  | emptyArray inside =>
    have shape : (Part.emptyArray inside).text ++ rest =
        91 :: (inside.text ++ 93 :: rest) := by
      simp [Part.text]
    rw [shape, ambiguousFrom_bracket, ambiguousFrom_gap,
      ambiguousFrom_close (.inr rfl)]
    rfl
  | array items inductionHypothesis =>
    have shape : (Part.array items).text ++ rest = 91 :: (items.text ++ rest) :=
      rfl
    rw [shape, ambiguousFrom_bracket]
    exact inductionHypothesis [] opened rest
  | emptyObject inside =>
    have shape : (Part.emptyObject inside).text ++ rest =
        123 :: (inside.text ++ 125 :: rest) := by
      simp [Part.text]
    rw [shape, ambiguousFrom_brace, ambiguousFrom_gap,
      ambiguousFrom_close (.inl rfl)]
    rfl
  | object fields inductionHypothesis =>
    have shape : (Part.object fields).text ++ rest =
        123 :: (fields.text ++ rest) :=
      rfl
    rw [shape, ambiguousFrom_brace]
    exact inductionHypothesis [] opened rest
  | lastItem before value after inductionHypothesis =>
    have shape : (Part.lastItem before value after).text ++ rest =
        before.text ++ (value.text ++ (after.text ++ 93 :: rest)) := by
      simp [Part.text]
    have scanned := inductionHypothesis [] (none :: opened)
      (after.text ++ 93 :: rest)
    rw [shape, ambiguousFrom_gap]
    refine scanned.trans ?_
    rw [ambiguousFrom_gap, ambiguousFrom_close (.inr rfl)]
    rfl
  | item before value after later valueHypothesis restHypothesis =>
    have shape : (Part.item before value after later).text ++ rest =
        before.text ++ (value.text ++ (after.text ++
          44 :: (later.text ++ rest))) := by
      simp [Part.text]
    have scanned := valueHypothesis [] (none :: opened)
      (after.text ++ 44 :: (later.text ++ rest))
    have following := restHypothesis [] opened rest
    rw [shape, ambiguousFrom_gap]
    refine scanned.trans ?_
    rw [ambiguousFrom_gap, ambiguousFrom_comma]
    refine (congrArg _ following).trans ?_
    rw [← Bool.or_assoc]
    rfl
  | lastField before key afterKey beforeValue value after inductionHypothesis =>
    have shape : (Part.lastField before key afterKey beforeValue value
        after).text ++ rest =
        before.text ++ (key.text ++ (afterKey.text ++ 58 ::
          (beforeValue.text ++ (value.text ++ (after.text ++ 125 :: rest))))) := by
      simp [Part.text]
    have scanned := inductionHypothesis []
      (some (seen ++ [key.decoded]) :: opened) (after.text ++ 125 :: rest)
    rw [shape, ambiguousFrom_gap]
    refine (ambiguousFrom_key key _).trans ?_
    rw [ambiguousFrom_gap, ambiguousFrom_unit (by decide), ambiguousFrom_gap]
    refine (congrArg (fun later => _ || (_ || later)) scanned).trans ?_
    rw [ambiguousFrom_gap, ambiguousFrom_close (.inl rfl)]
    simp only [flagged, Bool.or_assoc, tail_cons]
  | field before key afterKey beforeValue value after later valueHypothesis
      restHypothesis =>
      have shape : (Part.field before key afterKey beforeValue value after
          later).text ++ rest =
          before.text ++ (key.text ++ (afterKey.text ++ 58 ::
            (beforeValue.text ++ (value.text ++ (after.text ++
              44 :: (later.text ++ rest)))))) := by
        simp [Part.text]
      have scanned := valueHypothesis []
        (some (seen ++ [key.decoded]) :: opened)
        (after.text ++ 44 :: (later.text ++ rest))
      have following := restHypothesis (seen ++ [key.decoded]) opened rest
      rw [shape, ambiguousFrom_gap]
      refine (ambiguousFrom_key key _).trans ?_
      rw [ambiguousFrom_gap, ambiguousFrom_unit (by decide), ambiguousFrom_gap]
      refine (congrArg (fun later => _ || (_ || later)) scanned).trans ?_
      rw [ambiguousFrom_gap, ambiguousFrom_comma]
      refine (congrArg (fun later => _ || (_ || (_ || later))) following).trans ?_
      simp only [flagged, Bool.or_assoc]

theorem keys_value (value : Part .value) : value.keys = [] := by
  cases value with
  | _ => rfl

theorem keys_items (items : Part .items) : items.keys = [] := by
  cases items with
  | _ => rfl

theorem nodup_concat_iff
    {key : Text}
    (distinct : seen.Nodup) :
    (seen ++ [key]).Nodup ↔ key ∉ seen := by
  rw [← concat_eq_append, nodup_concat]
  exact and_iff_left distinct

/-- Whether one of the texts holds a lone surrogate. -/
def HoldsLone (texts : List Text) : Prop :=
  ∃ text ∈ texts, Script.lone text = true

/-- Whether one of the objects, each by its keys, names a key twice. -/
def Repeats (objects : List (List Text)) : Prop :=
  ∃ keys ∈ objects, ¬ keys.Nodup

theorem not_holdsLone_nil : ¬ HoldsLone [] := by
  rintro ⟨text, member, _⟩
  cases member

theorem holdsLone_cons {text : Text} {texts : List Text} :
    HoldsLone (text :: texts) ↔ Script.lone text = true ∨ HoldsLone texts :=
  exists_mem_cons_iff ..

theorem holdsLone_append {first second : List Text} :
    HoldsLone (first ++ second) ↔ HoldsLone first ∨ HoldsLone second := by
  simp only [HoldsLone, mem_append, or_and_right, exists_or]

theorem not_repeats_nil : ¬ Repeats [] := by
  rintro ⟨keys, member, _⟩
  cases member

theorem repeats_cons {keys : List Text} {objects : List (List Text)} :
    Repeats (keys :: objects) ↔ ¬ keys.Nodup ∨ Repeats objects :=
  exists_mem_cons_iff ..

theorem repeats_append {first second : List (List Text)} :
    Repeats (first ++ second) ↔ Repeats first ∨ Repeats second := by
  simp only [Repeats, mem_append, or_and_right, exists_or]

/-- A part is flagged for a lone string or a key named twice. -/
theorem flagged_iff
    {kind : Script.Kind}
    (part : Part kind)
    (distinct : seen.Nodup) :
    flagged part seen = true ↔
      HoldsLone part.strings ∨ Repeats part.objects ∨
        ¬ (seen ++ part.keys).Nodup := by
  induction part generalizing seen with
  | null =>
    simp [flagged, Part.strings, Part.objects, Part.keys, distinct,
      not_holdsLone_nil, not_repeats_nil]
  | bool value =>
    simp [flagged, Part.strings, Part.objects, Part.keys, distinct,
      not_holdsLone_nil, not_repeats_nil]
  | number value =>
    simp [flagged, Part.strings, Part.objects, Part.keys, distinct,
      not_holdsLone_nil, not_repeats_nil]
  | string literal =>
    simp [flagged, Part.strings, Part.objects, Part.keys, distinct,
      holdsLone_cons, not_holdsLone_nil, not_repeats_nil]
  | emptyArray inside =>
    simp [flagged, Part.strings, Part.objects, Part.keys, distinct,
      not_holdsLone_nil, not_repeats_nil]
  | emptyObject inside =>
    simp [flagged, Part.strings, Part.objects, Part.keys, distinct,
      not_holdsLone_nil, repeats_cons, not_repeats_nil]
  | array items inductionHypothesis =>
    have inside := inductionHypothesis nodup_nil
    rw [nil_append, keys_items] at inside
    simpa [flagged, Part.strings, Part.objects, Part.keys, distinct] using inside
  | object fields inductionHypothesis =>
    have inside := inductionHypothesis nodup_nil
    rw [nil_append] at inside
    simp only [flagged, Part.strings, Part.objects, Part.keys, append_nil,
      distinct, not_true, or_false, repeats_cons]
    rw [inside]
    exact or_congr_right or_comm
  | lastItem before value after inductionHypothesis =>
    have inside := inductionHypothesis nodup_nil
    rw [nil_append, keys_value] at inside
    simpa [flagged, Part.strings, Part.objects, Part.keys, distinct] using inside
  | item before value after later valueHypothesis restHypothesis =>
    have first := valueHypothesis nodup_nil
    have following := restHypothesis nodup_nil
    rw [nil_append, keys_value] at first
    rw [nil_append, keys_items] at following
    simp only [nodup_nil, not_true, or_false] at first following
    simp only [flagged, Part.strings, Part.objects, Part.keys, append_nil,
      distinct, not_true, or_false, holdsLone_append, repeats_append,
      Bool.or_eq_true, first, following]
    exact or_or_or_comm ..
  | lastField before key afterKey beforeValue value after inductionHypothesis =>
    have inside := inductionHypothesis nodup_nil
    rw [nil_append, keys_value] at inside
    simp only [nodup_nil, not_true, or_false] at inside
    simp only [flagged, Part.strings, Part.objects, Part.keys, Bool.or_eq_true,
      contains_iff_mem, inside, holdsLone_cons,
      nodup_concat_iff distinct, not_not]
    clear inside inductionHypothesis distinct
    grind
  | field before key afterKey beforeValue value after later valueHypothesis
      restHypothesis =>
      have first := valueHypothesis nodup_nil
      rw [nil_append, keys_value] at first
      simp only [nodup_nil, not_true, or_false] at first
      have spread : seen ++ (key.decoded :: later.keys) =
          (seen ++ [key.decoded]) ++ later.keys := by
        simp
      simp only [flagged, Part.strings, Part.objects, Part.keys, Bool.or_eq_true,
        contains_iff_mem, first, holdsLone_cons, holdsLone_append,
        repeats_append, spread]
      by_cases again : key.decoded ∈ seen
      · have repeated : ¬ (seen ++ [key.decoded] ++ later.keys).Nodup := by
          intro nodup
          exact (nodup_concat_iff distinct).mp nodup.of_append_left again
        simp only [again, repeated, true_or, or_true, not_false_eq_true]
      · have following := restHypothesis ((nodup_concat_iff distinct).mpr again)
        simp only [following, again, false_or]
        clear first following valueHypothesis restHypothesis distinct
        grind

/-- A document's text is ambiguous exactly when its value is. -/
theorem ambiguousJson_text (document : Document) :
    ambiguousJson document.text = true ↔
      Repeats document.value.objects ∨ HoldsLone document.value.strings := by
  have scanned := ambiguousFrom_part document.value [] [] document.after.text
  have ended : ambiguousFrom [] false document.after.text = false := by
    have passed := @ambiguousFrom_gap [] false document.after []
    rw [append_nil] at passed
    rw [passed, ambiguousFrom]
  have flags := flagged_iff document.value nodup_nil
  rw [nil_append, keys_value] at flags
  rw [ambiguousJson, Document.text, ambiguousFrom_gap]
  rw [show ambiguousFrom [] false (document.value.text ++ document.after.text) = _
    from scanned, ended, Bool.or_false, flags]
  simp only [nodup_nil, not_true, or_false]
  exact or_comm

theorem ambiguousJson_of_parse
    {text : Text}
    {value : Script.Value}
    (taken : Script.parse text = some value) :
    ambiguousJson text = true ↔ Repeats value.objects ∨ HoldsLone value.strings := by
  obtain ⟨document, rfl, rfl⟩ := Script.exists_document taken
  have objects := Script.objects_meaning document.value
  have strings := Script.strings_meaning document.value
  rw [ambiguousJson_text, objects, strings]
  rfl

end Content

end HushOS
