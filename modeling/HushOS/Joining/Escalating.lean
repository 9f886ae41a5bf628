import HushOS.Acceptance.PassesMarks
import HushOS.Joining.Codes

namespace HushOS

open Toolkit List OrderedMap

/-!
# The escalation stays

A held code keeps its positions until its match, and the family its wrong pair
until any match, over every run of showings, checks, values folded in and
sessions started anew.
-/

namespace Joining

theorem joinable_of_words
    {mark : JoinMark}
    (words : twelveWords mark.code = true) :
    Joinable ' ' (toString mark.rosterVersion :: mark.code) := by
  intro word member
  rcases mem_cons.mp member with rfl | inCode
  · rw [Nat.toString_eq_repr]
    constructor
    · intro empty
      refine Nat.toDigits_ne_nil (b := 10) (n := mark.rosterVersion) ?_
      simpa [Nat.repr] using congrArg String.toList empty
    · intro spaced
      have digit : ' '.isDigit = true :=
        Nat.isDigit_of_mem_toDigits (b := 10) (by decide) (by decide)
          (by simpa [Nat.repr] using spaced)
      revert digit
      decide
  · exact joinable_of_twelveWords words word inCode

/-- A key of a code acceptance gives. -/
def OfCode (key : String) : Prop :=
  ∃ shown : ShownMark, codeKey shown.mark = key

/-- A held code as a mark. -/
def HeldCode.mark (held : HeldCode) : JoinMark where
  rosterVersion := held.rosterVersion
  code := held.code

theorem heldCode_codeKey
    {mark : JoinMark}
    (words : twelveWords mark.code = true)
    (positions : Positions) :
    heldCode (codeKey mark) positions =
      { rosterVersion := mark.rosterVersion
        code := mark.code
        positions } := by
  have split : ((codeKey mark).toList.splitOn ' ').map String.ofList =
      toString mark.rosterVersion :: mark.code := by
    rw [codeKey, splitOn_joined (joinable_of_words words) (by simp),
      map_map]
    simp [Function.comp_def]
  rw [heldCode, split]
  simp [Nat.toString_eq_repr]

variable {held : HeldCode}

theorem heldCode_mark
    (shown : ∃ shown : ShownMark, shown.mark = held.mark) :
    heldCode (codeKey held.mark) held.positions = held := by
  obtain ⟨shown, same⟩ := shown
  rw [← same, heldCode_codeKey shown.words, same]
  rfl

variable {key : String}

theorem exists_shown_heldCode
    (ofCode : OfCode key)
    (positions : Positions) :
    codeKey (heldCode key positions).mark = key ∧
      ∃ shown : ShownMark, shown.mark = (heldCode key positions).mark := by
  obtain ⟨shown, rfl⟩ := ofCode
  rw [heldCode_codeKey shown.words]
  exact ⟨rfl, ⟨⟨⟨shown.mark.rosterVersion, shown.mark.code, none⟩,
    shown.words, shown.versioned⟩, rfl⟩⟩

/-- The earliest free code is an issued one nobody holds. -/
theorem earliestFree_eq_some
    {entries : List (String × Issued)}
    {oldest : String × Issued}
    (isEarliest : earliestFree entries = some oldest) :
    oldest ∈ entries ∧ oldest.2.held = false := by
  have kept : ∀ (rest : List (String × Issued)) start,
      (∀ entry ∈ start, entry ∈ entries ∧ entry.2.held = false) →
      (∀ entry ∈ rest, entry ∈ entries) →
      ∀ entry ∈ rest.foldl earlierFree start,
        entry ∈ entries ∧ entry.2.held = false := by
    intro rest
    induction rest with
    | nil =>
      exact fun _ found _ => found
    | cons next rest inductionHypothesis =>
      intro start found listed
      refine inductionHypothesis _ ?_ fun entry member =>
        listed entry (mem_cons_of_mem _ member)
      intro entry isNext
      unfold earlierFree at isNext
      split at isNext
      · next free =>
          cases isNext
          exact ⟨listed _ mem_cons_self, free.1⟩
      · exact found entry isNext
  exact kept entries none (by simp) (fun _ member => member) oldest isEarliest

/-- What room made for one more code leaves of a family. -/
structure Roomier (family room : JoinFamily) : Prop where
  tried : room.tried = family.tried
  fits : room.issued.size < MAX_SHOWN_CODES
  fewer : ∀ {key issued}, room.issued.get? key = some issued →
    family.issued.get? key = some issued
  held : ∀ {key issued}, family.issued.get? key = some issued →
    issued.held = true → room.issued.get? key = some issued

variable {family room : JoinFamily}

/-- Making room drops only free codes. -/
theorem roomier_of_makeRoom
    (within : family.issued.size ≤ MAX_SHOWN_CODES)
    (made : makeRoom family = .ok room) :
    Roomier family room := by
  unfold makeRoom at made
  split at made
  · next fits =>
      cases made
      exact ⟨rfl, fits, fun found => found, fun found _ => found⟩
  · split at made
    · cases made
    · next oldest isEarliest =>
        cases made
        obtain ⟨member, free⟩ := earliestFree_eq_some isEarliest
        have found : family.issued.get? oldest.1 = some oldest.2 :=
          get?_eq_some.mpr member
        refine ⟨rfl, lt_of_lt_of_le ?_ within, ?_, ?_⟩
        · rw [← length_keys, keys_erase,
            ← length_keys]
          exact length_filter_lt_length_iff_exists.mpr
            ⟨oldest.1, OrderedMap.mem_keys.mpr ⟨_, found⟩, by simp⟩
        · intro key issued stands
          rw [get?_erase] at stands
          split at stands
          · cases stands
          · exact stands
        · intro key issued stands isHeld
          rw [get?_erase, if_neg]
          · exact stands
          · rintro rfl
            rw [found] at stands
            cases stands
            rw [free] at isHeld
            cases isHeld

/-- A family's codes are codes acceptance gives, and no more than it keeps. -/
structure Sound (family : JoinFamily) : Prop where
  ofCode : ∀ {key issued}, family.issued.get? key = some issued → OfCode key
  within : family.issued.size ≤ MAX_SHOWN_CODES

/-- A code is held at positions. -/
def Held (family : JoinFamily) (key : String) (positions : Positions) : Prop :=
  ∃ issued, family.issued.get? key = some issued ∧ issued.held = true ∧
    issued.positions = positions

/-- Nothing that a wrong pair left is lost. -/
structure Firmer (before after : JoinFamily) : Prop where
  tried : before.tried = true → after.tried = true
  held : ∀ {key positions}, Held before key positions →
    Held after key positions

theorem Firmer.refl (family : JoinFamily) : Firmer family family where
  tried := id
  held := id

theorem Firmer.trans
    {first second third : JoinFamily}
    (earlier : Firmer first second)
    (later : Firmer second third) :
    Firmer first third where
  tried isTried := later.tried (earlier.tried isTried)
  held isHeld := later.held (earlier.held isHeld)

theorem sound_newJoinFamily : Sound newJoinFamily where
  ofCode found := by
    simp [newJoinFamily] at found
  within := by
    decide

variable {positions : Positions}

theorem sound_insert
    {held : Bool}
    (sound : Sound family)
    (roomier : Roomier family room)
    (ofCode : OfCode key) :
    Sound (insert room key positions held) where
  ofCode {query issued} found := by
    rw [insert, get?_set] at found
    split at found
    · next same =>
        exact same ▸ ofCode
    · exact sound.ofCode (roomier.fewer found)
  within := by
    have fits := roomier.fits
    rw [insert, size_set]
    split <;> omega

theorem firmer_insert
    {held : Bool}
    (roomier : Roomier family room)
    (unissued : family.issued.get? key = none) :
    Firmer family (insert room key positions held) where
  tried isTried := by
    rw [insert, roomier.tried]
    exact isTried
  held := by
    rintro query others ⟨issued, found, isHeld, atPositions⟩
    refine ⟨issued, ?_, isHeld, atPositions⟩
    rw [insert, get?_set, if_neg]
    · exact roomier.held found isHeld
    · rintro rfl
      rw [unissued] at found
      cases found

theorem sound_set
    {issued changed : Issued}
    {tried : Bool}
    (sound : Sound family)
    (found : family.issued.get? key = some issued) :
    Sound { family with
      tried, issued := family.issued.set key changed } where
  ofCode {query other} stands := by
    rw [get?_set] at stands
    split at stands
    · next same =>
        exact same ▸ sound.ofCode found
    · exact sound.ofCode stands
  within := by
    rw [size_set, if_pos (OrderedMap.mem_keys.mpr ⟨_, found⟩)]
    exact sound.within

theorem firmer_set
    {issued changed : Issued}
    {tried : Bool}
    (found : family.issued.get? key = some issued)
    (stays : issued.held = true →
      changed.held = true ∧ changed.positions = issued.positions)
    (stillTried : family.tried = true → tried = true) :
    Firmer family { family with
      tried, issued := family.issued.set key changed } where
  tried := stillTried
  held := by
    rintro query positions ⟨other, stands, isHeld, rfl⟩
    by_cases same : query = key
    · subst same
      rw [found] at stands
      cases stands
      exact ⟨changed, by simp [get?_set], stays isHeld⟩
    · exact ⟨other, by simp [get?_set, same, stands], isHeld, rfl⟩

theorem ofCode_of_readHeld
    {mark : JoinMark}
    {entry : Value}
    (read : readHeld entry = some (mark, positions)) :
    OfCode (codeKey mark) := by
  simp only [readHeld, bind, Option.bind_eq_some_iff, Option.some.injEq,
    Prod.mk.injEq] at read
  obtain ⟨version, ⟨_, _, versioned⟩, code, ⟨field, _, shaped⟩, _, _, rfl, _⟩ :=
    read
  have words : twelveWords code = true := by
    unfold codeShape at shaped
    split at shaped
    · exact (Option.filter_eq_some_iff.mp shaped).2
    · cases shaped
  unfold keptVersion at versioned
  split at versioned
  · split at versioned
    · cases versioned
      exact ⟨⟨_, words, by simp only; omega⟩, rfl⟩
    · cases versioned
  · cases versioned

theorem restoreHeld_spec
    (sound : Sound family)
    (entry : Value) :
    Sound (restoreHeld family entry) ∧
      Firmer family (restoreHeld family entry) := by
  unfold restoreHeld
  split
  · exact ⟨sound, .refl family⟩
  · next mark positions read =>
      split
      · next issued found =>
          split
          · exact ⟨sound, .refl family⟩
          · next free =>
              exact ⟨sound_set sound found, firmer_set found
                (fun isHeld => absurd isHeld free) id⟩
      · next unissued =>
          split
          · exact ⟨sound, .refl family⟩
          · next room made =>
              have roomier := roomier_of_makeRoom sound.within made
              exact ⟨sound_insert sound roomier (ofCode_of_readHeld read),
                firmer_insert roomier unissued⟩

theorem foldl_restoreHeld
    (entries : List Value)
    (sound : Sound family) :
    Sound (entries.foldl restoreHeld family) ∧
      Firmer family (entries.foldl restoreHeld family) := by
  induction entries generalizing family with
  | nil =>
    exact ⟨sound, .refl family⟩
  | cons entry rest inductionHypothesis =>
    obtain ⟨next, firmer⟩ := restoreHeld_spec sound entry
    obtain ⟨last, later⟩ := inductionHypothesis next
    exact ⟨last, firmer.trans later⟩

/-- A restore keeps the family sound and takes back no hold. -/
theorem restoreHolds_spec
    (sound : Sound family)
    (value : Value) :
    Sound (restoreHolds family value) ∧
      Firmer family (restoreHolds family value) := by
  have tried : Sound (restoreTried family value) ∧
      Firmer family (restoreTried family value) := by
    unfold restoreTried
    split
    · exact ⟨⟨sound.ofCode, sound.within⟩, ⟨fun _ => rfl, id⟩⟩
    · exact ⟨sound, .refl family⟩
  unfold restoreHolds
  split
  · split
    · next entries _ =>
        obtain ⟨restored, firmer⟩ := foldl_restoreHeld entries tried.1
        exact ⟨restored, tried.2.trans firmer⟩
    · exact tried
  · exact ⟨sound, .refl family⟩

theorem compareLists_eq_gt (first second : List String) :
    compareLists first second = .gt ↔ second < first := by
  induction first generalizing second with
  | nil =>
    cases second <;> simp [compareLists]
  | cons word rest inductionHypothesis =>
    cases second with
    | nil =>
      simp [compareLists]
    | cons other others =>
      rw [compareLists, cons_lt_cons_iff]
      by_cases same : word = other
      · subst same
        simpa using inductionHypothesis others
      · rcases lt_or_gt_of_ne same with before | after
        · simp [same, before, before.not_gt, Ne.symm same]
        · simp [same, after, after.not_gt]

theorem mayPrecede_iff (first second : HeldCode) :
    MayPrecede first second ↔
      toLex (first.rosterVersion, first.code) ≤
        toLex (second.rosterVersion, second.code) := by
  rw [MayPrecede, compareHeld, Prod.Lex.toLex_le_toLex]
  by_cases same : first.rosterVersion = second.rosterVersion
  · simpa [same] using (compareLists_eq_gt first.code second.code).not
  · rw [if_pos same, Nat.compare_ne_gt]
    simp only [same, false_and, or_false]
    omega

instance : Std.Total MayPrecede where
  total first second := by
    rw [mayPrecede_iff, mayPrecede_iff]
    exact le_total _ _

instance : IsTrans HeldCode MayPrecede where
  trans first second third earlier later := by
    rw [mayPrecede_iff] at *
    exact le_trans earlier later

/-- What of an issued code outlives a session, were it held. -/
def face (entry : String × Issued) : String × Positions × Bool :=
  (entry.1, entry.2.positions, entry.2.held)

/-- A held code as what is issued for it. -/
def HeldCode.face (held : HeldCode) : String × Positions × Bool :=
  (codeKey held.mark, held.positions, true)

theorem held_iff_face :
    Held family key positions ↔
      (key, positions, true) ∈ family.issued.entries.map face := by
  rw [mem_map]
  constructor
  · rintro ⟨issued, found, isHeld, rfl⟩
    exact ⟨(key, issued), get?_eq_some.mp found, by
      rw [face, isHeld]⟩
  · rintro ⟨⟨_, issued⟩, member, isFace⟩
    simp only [face, Prod.mk.injEq] at isFace
    obtain ⟨rfl, atPositions, isHeld⟩ := isFace
    exact ⟨issued, get?_eq_some.mpr member, isHeld, atPositions⟩

/-- A held code is read back with its mark and positions. -/
theorem readHeld_value
    (shown : ∃ shown : ShownMark, shown.mark = held.mark) :
    readHeld held.value = some (held.mark, held.positions) := by
  obtain ⟨⟨mark, words, versioned⟩, rfl⟩ := shown
  have isText : ∀ code : List String,
      (code.map Value.text).mapM Value.text? = some code := by
    intro code
    induction code with
    | nil =>
      rfl
    | cons word rest inductionHypothesis =>
      rw [map_cons, mapM_cons, inductionHypothesis]
      rfl
  have version : keptVersion (.integer held.rosterVersion) =
      some held.rosterVersion := by
    have bounds : (1 : Int) ≤ held.rosterVersion ∧
        (held.rosterVersion : Int) ≤ 2 ^ 53 - 1 := by
      simp only [HeldCode.mark] at versioned
      omega
    rw [keptVersion, if_pos bounds, Int.toNat_natCast]
  have code : codeShape (.array (held.code.map .text)) = some held.code := by
    have isWords : twelveWords held.code = true := words
    rw [codeShape, isText, Option.filter_some, if_pos isWords]
  have positions : keptPositions
      (.array (held.positions.pair.map fun (at_ : Nat) => .integer at_)) =
      some held.positions := by
    have ascending := held.positions.ascending
    have within := held.positions.within
    rw [Positions.pair, map_cons, map_cons, map_nil,
      keptPositions, dif_pos (by omega)]
    simp
  simp [readHeld, HeldCode.value, Value.field, List.lookup, version, code,
    positions, HeldCode.mark]

/-- Held codes that were written are all restored. -/
theorem foldl_restoreHeld_values
    (codes : List HeldCode)
    {family : JoinFamily}
    (shown : ∀ held ∈ codes, ∃ shown : ShownMark, shown.mark = held.mark)
    (distinct : (family.issued.keys ++
      codes.map fun held => codeKey held.mark).Nodup)
    (room : family.issued.size + codes.length ≤ MAX_SHOWN_CODES) :
    ((codes.map HeldCode.value).foldl restoreHeld family).tried =
        family.tried ∧
      ((codes.map HeldCode.value).foldl restoreHeld
        family).issued.entries.map face =
        family.issued.entries.map face ++ codes.map HeldCode.face := by
  induction codes generalizing family with
  | nil =>
    simp
  | cons held rest inductionHypothesis =>
    rw [map_cons] at distinct
    rw [length_cons] at room
    have new : codeKey held.mark ∉ family.issued.keys := fun member =>
      disjoint_of_nodup_append distinct member mem_cons_self
    have restored : restoreHeld family held.value =
        insert family (codeKey held.mark) held.positions true := by
      rw [restoreHeld, readHeld_value (shown held mem_cons_self)]
      simp only [get?_eq_none.mpr new]
      rw [makeRoom, if_pos (by omega)]
    rw [map_cons, foldl_cons, restored]
    have keys : (insert family (codeKey held.mark) held.positions
        true).issued.keys = family.issued.keys ++ [codeKey held.mark] := by
      rw [insert, keys_set, if_neg new]
    have distinctNext : ((insert family (codeKey held.mark) held.positions
        true).issued.keys ++ rest.map fun held => codeKey held.mark).Nodup :=
      by rw [keys, append_assoc]; exact distinct
    have roomNext : (insert family (codeKey held.mark) held.positions
        true).issued.size + rest.length ≤ MAX_SHOWN_CODES := by
      rw [← length_keys, keys, length_append,
        length_keys]
      simp only [length_singleton]
      omega
    obtain ⟨tried, entries⟩ := inductionHypothesis
      (fun other member => shown other (mem_cons_of_mem _ member))
      distinctNext roomNext
    refine ⟨tried, ?_⟩
    rw [entries, insert, entries_set_of_new new, map_append,
      append_assoc]
    rfl

theorem mem_heldCodes :
    held ∈ heldCodes family ↔
      ∃ entry ∈ family.issued.entries, entry.2.held = true ∧
        heldCode entry.1 entry.2.positions = held := by
  rw [heldCodes, (perm_insertionSort MayPrecede _).mem_iff]
  simp [and_assoc]

theorem Sound.shown
    {family : JoinFamily}
    (sound : Sound family)
    {held : HeldCode}
    (member : held ∈ heldCodes family) :
    ∃ shown : ShownMark, shown.mark = held.mark := by
  obtain ⟨entry, listed, _, rfl⟩ := mem_heldCodes.mp member
  exact (exists_shown_heldCode
    (sound.ofCode (get?_eq_some.mpr listed)) _).2

theorem Sound.keys_perm
    (sound : Sound family) :
    ((heldCodes family).map fun held => codeKey held.mark).Perm
      ((family.issued.entries.filter fun entry => entry.2.held).map
        Prod.fst) := by
  refine ((perm_insertionSort MayPrecede _).map _).trans (.of_eq ?_)
  rw [map_map, map_inj_left]
  intro entry member
  exact (exists_shown_heldCode (sound.ofCode (get?_eq_some.mpr
    (mem_of_mem_filter member))) _).1

/-- A reload brings back the held codes and the tried flag. -/
theorem Sound.reload
    {family : JoinFamily}
    (sound : Sound family) :
    (reload (holdsValue family)).tried = family.tried ∧
      (reload (holdsValue family)).issued.entries.map face =
        (heldCodes family).map HeldCode.face := by
  have distinct : ((heldCodes family).map fun held =>
      codeKey held.mark).Nodup :=
    sound.keys_perm.nodup_iff.mpr
      (family.issued.nodup.sublist (filter_sublist.map Prod.fst))
  have room : (heldCodes family).length ≤ MAX_SHOWN_CODES := by
    have counted := sound.keys_perm.length_eq
    rw [length_map, length_map] at counted
    rw [counted]
    exact (length_filter_le _ _).trans sound.within
  unfold holdsValue
  split
  · next nothing =>
      rw [nothing.2, nothing.1]
      exact ⟨rfl, rfl⟩
  · obtain ⟨tried, entries⟩ := @foldl_restoreHeld_values (heldCodes family)
      { newJoinFamily with tried := family.tried }
      (fun held member => sound.shown member) (by simpa [newJoinFamily])
      (by
        have empty : newJoinFamily.issued.size = 0 := rfl
        simpa [empty] using room)
    have folded : Joining.reload (some
        { tried := family.tried, held := heldCodes family }) =
        ((heldCodes family).map HeldCode.value).foldl restoreHeld
          { newJoinFamily with tried := family.tried } := by
      cases family.tried <;> rfl
    rw [folded]
    exact ⟨tried, entries⟩

theorem heldCodes_eq (family : JoinFamily) :
    heldCodes family =
      (((family.issued.entries.map face).filter fun entry =>
        entry.2.2).map fun entry =>
          heldCode entry.1 entry.2.1).insertionSort MayPrecede := by
  rw [heldCodes, filter_map, map_map]
  rfl

/-- A reload stores what it was loaded from. -/
theorem Sound.holdsValue_reload
    (sound : Sound family) :
    holdsValue (Joining.reload (holdsValue family)) = holdsValue family := by
  obtain ⟨tried, entries⟩ := sound.reload
  have all : ((heldCodes family).map HeldCode.face).filter
      (fun entry => entry.2.2) = (heldCodes family).map HeldCode.face := by
    refine filter_eq_self.mpr fun entry member => ?_
    obtain ⟨held, _, rfl⟩ := mem_map.mp member
    rfl
  have same : heldCodes (Joining.reload (holdsValue family)) =
      heldCodes family := by
    rw [heldCodes_eq, entries, all, map_map]
    have back : (heldCodes family).map
        ((fun entry => heldCode entry.1 entry.2.1) ∘ HeldCode.face) =
        heldCodes family := by
      refine (map_congr_left fun held member => ?_).trans (map_id _)
      exact heldCode_mark (sound.shown member)
    rw [back]
    exact (pairwise_insertionSort MayPrecede _).insertionSort_eq
  rw [holdsValue, same, tried]
  rfl

theorem Sound.held_reload
    (sound : Sound family)
    (isHeld : Held family key positions) :
    Held (Joining.reload (holdsValue family)) key positions := by
  obtain ⟨issued, found, held, rfl⟩ := isHeld
  rw [held_iff_face, sound.reload.2, mem_map]
  refine ⟨heldCode key issued.positions, mem_heldCodes.mpr
    ⟨(key, issued), get?_eq_some.mp found, held, rfl⟩, ?_⟩
  obtain ⟨shown, rfl⟩ := sound.ofCode found
  rw [heldCode_codeKey shown.words]
  rfl

/-- A check answered a match. -/
def Matched (family : JoinFamily) (mark : JoinMark) (typed : List String) :
    Prop :=
  ∃ after, checkCode family mark typed = .ok (after, .matches)

/-- A check answered a wrong pair. -/
def WrongPair (family : JoinFamily) (mark : JoinMark) (typed : List String) :
    Prop :=
  ∃ after answer, checkCode family mark typed = .ok (after, answer) ∧
    answer ≠ .matches

/-- A step is not a match of the code a key is of. -/
def Unmatched (key : String) (session : Session) : Step → Prop
  | .checks mark typed =>
    codeKey mark = key → ¬ Matched session.family mark typed
  | _ => True

/-- A step is no match. -/
def NoMatch (session : Session) : Step → Prop
  | .checks mark typed => ¬ Matched session.family mark typed
  | _ => True

variable {after : JoinFamily} {typed : List String} {answer : Answer}

/-- A check matches and frees, or fails and escalates. -/
theorem checkCode_eq_ok
    (checked : checkCode family mark typed = .ok (after, answer)) :
    ∃ issued, family.issued.get? (codeKey mark) = some issued ∧
      (answer = .matches ∧
          after = { family with
            tried := false
            issued := family.issued.set (codeKey mark)
              { issued with held := false } } ∨
        answer = (if issued.held || family.tried then .mismatch
            else .wrongWords) ∧
          after = { family with
            tried := true
            issued := family.issued.set (codeKey mark)
              { issued with held := true } }) := by
  unfold checkCode at checked
  split at checked
  · cases checked
  · next issued found =>
      obtain ⟨compared, _, checked⟩ := bind_eq_ok.mp checked
      refine ⟨issued, found, ?_⟩
      split at checked
      · cases checked
        exact .inl ⟨rfl, rfl⟩
      · cases checked
        exact .inr ⟨rfl, rfl⟩

/-- A wrong pair sets the tried flag and loses no hold. -/
theorem wrong_of_checkCode
    {mark : JoinMark}
    (checked : checkCode family mark typed = .ok (after, answer))
    (wrong : answer ≠ .matches) :
    Firmer family after ∧ after.tried = true ∧
      ∃ issued, family.issued.get? (codeKey mark) = some issued ∧
        Held after (codeKey mark) issued.positions := by
  obtain ⟨issued, found, isMatch | ⟨_, rfl⟩⟩ := checkCode_eq_ok checked
  · exact absurd isMatch.1 wrong
  · refine ⟨firmer_set found (fun _ => ⟨rfl, rfl⟩) fun _ => rfl, rfl, issued,
      found, { issued with held := true }, ?_, rfl, rfl⟩
    simp [get?_set]

/-- A hold stays through a check that does not match its code. -/
theorem held_of_checkCode
    {mark : JoinMark}
    (checked : checkCode family mark typed = .ok (after, answer))
    (unmatched : codeKey mark = key → answer ≠ .matches)
    (isHeld : Held family key positions) :
    Held after key positions := by
  by_cases isMatch : answer = .matches
  · subst isMatch
    have differs : key ≠ codeKey mark := fun same => unmatched same.symm rfl
    obtain ⟨issued, found, ⟨_, rfl⟩ | ⟨isMatch, _⟩⟩ := checkCode_eq_ok checked
    · obtain ⟨other, stands, held, atPositions⟩ := isHeld
      exact ⟨other, by simp [get?_set, differs, stands], held,
        atPositions⟩
    · split at isMatch <;> cases isMatch
  · exact (wrong_of_checkCode checked isMatch).1.held isHeld

theorem sound_of_checkCode
    {mark : JoinMark}
    (sound : Sound family)
    (checked : checkCode family mark typed = .ok (after, answer)) :
    Sound after := by
  obtain ⟨issued, found, ⟨_, rfl⟩ | ⟨_, rfl⟩⟩ := checkCode_eq_ok checked
  · exact sound_set sound found
  · exact sound_set sound found

/-- Showing a code keeps the family sound and its holds. -/
theorem showCode_spec
    {shown : ShownMark}
    {next : Draws}
    (sound : Sound family)
    (showed : showCode family shown.mark next = .ok (after, positions)) :
    Sound after ∧ Firmer family after := by
  unfold showCode at showed
  split at showed
  · cases showed
    exact ⟨sound, .refl family⟩
  · next unissued =>
      obtain ⟨room, made, isAfter⟩ := bind_eq_ok.mp showed
      cases isAfter
      have roomier := roomier_of_makeRoom sound.within made
      exact ⟨sound_insert sound roomier ⟨shown, rfl⟩,
        firmer_insert roomier unissued⟩

variable {session : Session}

/-- Every step keeps the family sound. -/
theorem sound_step
    (next : Step)
    (sound : Sound session.family) :
    Sound (step session next).family := by
  cases next with
  | shows shown next =>
    unfold step
    dsimp only
    split
    · next showed =>
        exact (showCode_spec sound showed).1
    · exact sound
  | checks mark typed =>
    unfold step
    dsimp only
    split
    · next checked =>
        exact sound_of_checkCode sound checked
    · exact sound
  | keeps =>
    exact sound
  | restores value =>
    exact (restoreHolds_spec sound value).1
  | reloads =>
    unfold step reload
    dsimp only
    split
    · exact sound_newJoinFamily
    · exact (restoreHolds_spec sound_newJoinFamily _).1

/-- A held code stays held until it is matched. -/
theorem held_step
    {next : Step}
    (sound : Sound session.family)
    (stays : next ≠ .reloads)
    (unmatched : Unmatched key session next)
    (isHeld : Held session.family key positions) :
    Held (step session next).family key positions := by
  cases next with
  | shows shown next =>
    unfold step
    dsimp only
    split
    · next showed =>
        exact (showCode_spec sound showed).2.held isHeld
    · exact isHeld
  | checks mark typed =>
    unfold step
    dsimp only
    split
    · next family answer checked =>
        refine held_of_checkCode checked (fun same isMatch => ?_) isHeld
        exact unmatched same ⟨family, isMatch ▸ checked⟩
    · exact isHeld
  | keeps =>
    exact isHeld
  | restores value =>
    exact (restoreHolds_spec sound value).2.held isHeld
  | reloads =>
    exact absurd rfl stays

theorem tried_step
    {next : Step}
    (sound : Sound session.family)
    (stays : next ≠ .reloads)
    (noMatch : NoMatch session next)
    (tried : session.family.tried = true) :
    (step session next).family.tried = true := by
  cases next with
  | shows shown next =>
    unfold step
    dsimp only
    split
    · next showed =>
        exact (showCode_spec sound showed).2.tried tried
    · exact tried
  | checks mark typed =>
    unfold step
    dsimp only
    split
    · next family answer checked =>
        exact (wrong_of_checkCode checked fun isMatch =>
          noMatch ⟨family, isMatch ▸ checked⟩).2.1
    · exact tried
  | keeps =>
    exact tried
  | restores value =>
    exact (restoreHolds_spec sound value).2.tried tried
  | reloads =>
    exact absurd rfl stays

theorem kept_step (session : Session) (next : Step) :
    (step session next).kept = session.kept ∨
      (step session next).kept = holdsValue (step session next).family := by
  cases next with
  | shows shown next =>
    unfold step
    dsimp only
    split
    · exact .inl rfl
    · exact .inl rfl
  | checks mark typed =>
    unfold step
    dsimp only
    split
    · exact .inr rfl
    · exact .inl rfl
  | keeps =>
    exact .inr rfl
  | restores value =>
    exact .inl rfl
  | reloads =>
    exact .inl rfl

/-- A code is held here and in what a new session would fold in. -/
structure HeldFast
    (key : String)
    (positions : Positions)
    (session : Session) : Prop where
  sound : Sound session.family
  here : Held session.family key positions
  kept : Held (reload session.kept) key positions

/-- A code held fast stays so until it is matched. -/
theorem HeldFast.step
    {session : Session}
    {next : Step}
    {key : String}
    {positions : Positions}
    (unmatched : Unmatched key session next)
    (fast : HeldFast key positions session) :
    HeldFast key positions (step session next) := by
  have sound := sound_step next fast.sound
  have here : Held (Joining.step session next).family key positions := by
    by_cases anew : next = .reloads
    · subst anew
      exact fast.kept
    · exact held_step fast.sound anew unmatched fast.here
  refine ⟨sound, here, ?_⟩
  rcases kept_step session next with same | rekept
  · rw [same]
    exact fast.kept
  · rw [rekept]
    exact sound.held_reload here

/-- A family's wrong pair stands here and in what is kept. -/
structure TriedFast (session : Session) : Prop where
  sound : Sound session.family
  here : session.family.tried = true
  kept : (reload session.kept).tried = true

/-- The tried flag stays fast until some code matches. -/
theorem TriedFast.step
    {session : Session}
    {next : Step}
    (noMatch : NoMatch session next)
    (fast : TriedFast session) :
    TriedFast (step session next) := by
  have sound := sound_step next fast.sound
  have here : (Joining.step session next).family.tried = true := by
    by_cases anew : next = .reloads
    · subst anew
      exact fast.kept
    · exact tried_step fast.sound anew noMatch fast.here
  refine ⟨sound, here, ?_⟩
  rcases kept_step session next with same | rekept
  · rw [same]
    exact fast.kept
  · rw [rekept, sound.reload.1]
    exact here

/-- A wrong pair holds its code fast and sets the tried flag. -/
theorem fast_of_wrongPair
    {mark : JoinMark}
    (sound : Sound session.family)
    (wrong : WrongPair session.family mark typed) :
    (∃ positions : Positions,
        stillShown session.family mark positions.pair = true ∧
          HeldFast (codeKey mark) positions
            (step session (.checks mark typed))) ∧
      TriedFast (step session (.checks mark typed)) := by
  obtain ⟨after, answer, checked, notMatch⟩ := wrong
  obtain ⟨_, tried, issued, found, isHeld⟩ :=
    wrong_of_checkCode checked notMatch
  have stepped : step session (.checks mark typed) =
      { family := after, kept := holdsValue after } := by
    simp only [step, checked]
  have left := sound_of_checkCode sound checked
  rw [stepped]
  refine ⟨⟨issued.positions, ?_, left, isHeld, left.held_reload isHeld⟩,
    left, tried, ?_⟩
  · simp [stillShown, found]
  · rw [left.reload.1]
    exact tried

/-- What stands of a family's escalation in a session, whatever comes after. -/
structure Escalates (session : Session) : Prop where
  /-- After a wrong pair a code is shown at the positions it was typed for. -/
  positions :
    ∀ mark typed, WrongPair session.family mark typed →
      ∃ positions : Positions,
        stillShown session.family mark positions.pair = true ∧
          ∀ later, Runs.Each step (Unmatched (codeKey mark))
              (step session (.checks mark typed)) later →
            ∀ next, showCode (Runs.run step
                (step session (.checks mark typed)) later).family mark next =
              .ok ((Runs.run step (step session (.checks mark typed))
                later).family, positions)
  /-- After a wrong pair, of any code, the next is the alarm. -/
  alarm :
    ∀ mark typed, WrongPair session.family mark typed →
      ∀ later, Runs.Each step NoMatch (step session (.checks mark typed))
          later →
        ∀ other words after answer,
          checkCode (Runs.run step (step session (.checks mark typed))
            later).family other words = .ok (after, answer) →
          answer ≠ .matches → answer = .mismatch
  /-- A value folded in takes no hold, no position and no wrong pair away. -/
  restored : ∀ value, Firmer session.family (restoreHolds session.family value)
  /-- What is kept, folded into a new family, is what that family keeps. -/
  kept :
    holdsValue (reload (holdsValue session.family)) =
      holdsValue session.family
  within : session.family.issued.size ≤ MAX_SHOWN_CODES
  /-- No held code goes, at any step of the session. -/
  stays :
    ∀ next, next ≠ .reloads → ∀ key positions,
      Held session.family key positions →
      ∃ issued, (step session next).family.issued.get? key = some issued ∧
        issued.positions = positions

/-- A family's escalation stands in every session, over every run. -/
theorem escalation_stands (steps : List Step) :
    Escalates (Runs.run step .start steps) := by
  have sound : Sound (Runs.run step .start steps).family :=
    Runs.keeps_of_step (fun session : Session => Sound session.family)
      (fun _ next holds => sound_step next holds) steps sound_newJoinFamily
  generalize Runs.run step .start steps = session at sound
  refine ⟨?_, ?_, fun value => (restoreHolds_spec sound value).2,
    sound.holdsValue_reload, sound.within, ?_⟩
  · intro mark typed wrong
    obtain ⟨⟨positions, shown, fast⟩, _⟩ := fast_of_wrongPair sound wrong
    refine ⟨positions, shown, fun later unmatched next => ?_⟩
    have stands := Runs.keeps_of_each (HeldFast (codeKey mark) positions)
      (fun _ _ unmatched fast => fast.step unmatched) unmatched fast
    obtain ⟨issued, found, _, rfl⟩ := stands.here
    simp only [showCode, found]
  · intro mark typed wrong later noMatch other words after answer checked
      notMatch
    have stands := Runs.keeps_of_each TriedFast
      (fun _ _ noMatch fast => fast.step noMatch) noMatch
      (fast_of_wrongPair sound wrong).2
    obtain ⟨issued, _, isMatch | ⟨isAnswer, _⟩⟩ := checkCode_eq_ok checked
    · exact absurd isMatch.1 notMatch
    · rw [isAnswer, stands.here, Bool.or_true, if_pos rfl]
  · intro next anew key positions isHeld
    by_cases unmatched : Unmatched key session next
    · obtain ⟨issued, found, _, atPositions⟩ :=
        held_step sound anew unmatched isHeld
      exact ⟨issued, found, atPositions⟩
    · -- Only a match of the code itself is left, which rewrites its entry.
      cases next with
      | checks mark typed =>
        simp only [Unmatched, not_forall, not_not] at unmatched
        obtain ⟨rfl, after, checked⟩ := unmatched
        obtain ⟨issued, found, held, rfl⟩ := isHeld
        obtain ⟨other, stands, ⟨_, rfl⟩ | ⟨isMatch, _⟩⟩ :=
          checkCode_eq_ok checked
        · rw [found] at stands
          cases stands
          refine ⟨{ issued with held := false }, ?_, rfl⟩
          simp [step, checked, get?_set]
        · split at isMatch <;> cases isMatch
      | shows | keeps | restores | reloads =>
        exact absurd trivial unmatched

def sampleShown : ShownMark where
  mark :=
    { rosterVersion := 2
      code := ["abandon", "ability", "able", "about", "above", "absent",
        "absorb", "abstract", "absurd", "abuse", "access", "accident"] }
  words := by decide
  versioned := by decide

example :
    let session := step .start (.shows sampleShown ⟨[1, 9], by decide⟩)
    (checkCode session.family sampleShown.mark
      ["ability", "abyss"]).toOption.map Prod.snd = some .wrongWords := by
  decide

end Joining

end HushOS
