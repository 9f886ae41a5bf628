import HushOS.Drive.Tags

namespace HushOS

open Toolkit

namespace Tags

/-!
# An edit carried through merges

A save starts from the registry its device last saw, and is merged again with
each registry that was saved before it.  Through every merge it keeps what the
others have, but for what it took out itself and what the cap cut, and it keeps
what it added, unless a write since took that out.
-/

variable {κ ε φ : Type} [DecidableEq κ]

/-- Two registries of the same tags and memberships. -/
structure Alike (first second : TagRegistry κ ε φ) : Prop where
  has : ∀ tag, first.Has tag ↔ second.Has tag
  carries : ∀ tag item, first.Carries tag item ↔ second.Carries tag item

/-- What a save changes: the registry it starts from, the one it was called with,
and whether the cap cut one of its merges. -/
structure Edit (κ ε φ : Type) where
  origin : TagRegistry κ ε φ
  next : TagRegistry κ ε φ
  cut : Bool

namespace Edit

/-- Whether an edit took a tag out. -/
def TookTag (edit : Edit κ ε φ) (tag : κ) : Prop :=
  edit.origin.Has tag ∧ ¬ edit.next.Has tag

/-- Whether an edit took an item from a tag, by itself or with the tag. -/
def Took (edit : Edit κ ε φ) (tag item : κ) : Prop :=
  (edit.origin.Carries tag item ∧ ¬ edit.next.Carries tag item) ∨ edit.TookTag tag

/-- Whether an edit added an item to a tag. -/
def Added (edit : Edit κ ε φ) (tag item : κ) : Prop :=
  edit.next.Carries tag item ∧ ¬ edit.origin.Carries tag item

/-- What a value made from a base has of it: all but what the edit took out, and
what the cap cut. -/
structure Keeps (edit : Edit κ ε φ) (base value : TagRegistry κ ε φ) : Prop where
  tags : ∀ tag, base.Has tag → value.Has tag ∨ edit.TookTag tag ∨ edit.cut = true
  items : ∀ tag item, base.Carries tag item →
    value.Carries tag item ∨ edit.Took tag item ∨ edit.cut = true

/-- Whether a write took an item from a tag, or took the tag out. -/
def Lost (docAt : Nat → TagRegistry κ ε φ) (write : Nat) (tag item : κ) : Prop :=
  ((docAt write).Carries tag item ∧ ¬ (docAt (write + 1)).Carries tag item) ∨
    ((docAt write).Has tag ∧ ¬ (docAt (write + 1)).Has tag)

/-- What a value has of what its edit added: all but what a write since the edit
began took out, and what the cap cut. -/
def Adds
    (edit : Edit κ ε φ)
    (docAt : Nat → TagRegistry κ ε φ)
    (begun count : Nat)
    (value : TagRegistry κ ε φ) :
    Prop :=
  ∀ tag item, edit.Added tag item →
    value.Carries tag item ∨ edit.cut = true ∨
      ∃ write, begun ≤ write ∧ write < count ∧ Lost docAt write tag item

end Edit

namespace Alike

theorem refl (registry : TagRegistry κ ε φ) : Alike registry registry :=
  ⟨fun _ => Iff.rfl, fun _ _ => Iff.rfl⟩

theorem symm
    {first second : TagRegistry κ ε φ}
    (alike : Alike first second) :
    Alike second first :=
  ⟨fun tag => (alike.has tag).symm, fun tag item => (alike.carries tag item).symm⟩

end Alike

namespace Edit

variable {edit : Edit κ ε φ} {base value : TagRegistry κ ε φ}

theorem Keeps.congr
    {base' value' : TagRegistry κ ε φ}
    (keeps : edit.Keeps base value)
    (sameBase : Alike base base')
    (sameValue : Alike value value') :
    edit.Keeps base' value' where
  tags tag has := by
    rw [← sameValue.has]
    exact keeps.tags tag ((sameBase.has tag).mpr has)
  items tag item carries := by
    rw [← sameValue.carries]
    exact keeps.items tag item ((sameBase.carries tag item).mpr carries)

variable {docAt : Nat → TagRegistry κ ε φ} {begun : Nat}

theorem Adds.congr
    {count : Nat}
    {value' : TagRegistry κ ε φ}
    (adds : edit.Adds docAt begun count value)
    (same : Alike value value') :
    edit.Adds docAt begun count value' := by
  intro tag item added
  rw [← same.carries]
  exact adds tag item added

theorem Adds.agree
    {docAt' : Nat → TagRegistry κ ε φ}
    {count : Nat}
    (adds : edit.Adds docAt begun count value)
    (same : ∀ write ≤ count, docAt' write = docAt write) :
    edit.Adds docAt' begun count value := by
  intro tag item added
  rcases adds tag item added with carries | cut | ⟨write, since, before, lost⟩
  · exact Or.inl carries
  · exact Or.inr (Or.inl cut)
  · refine Or.inr (Or.inr ⟨write, since, before, ?_⟩)
    rw [Lost, same write (Nat.le_of_lt before), same (write + 1) before]
    exact lost

theorem keeps_origin (edit : Edit κ ε φ) : edit.Keeps edit.origin edit.next where
  tags tag has := by
    by_cases still : edit.next.Has tag
    · exact Or.inl still
    · exact Or.inr (Or.inl ⟨has, still⟩)
  items tag item carries := by
    by_cases still : edit.next.Carries tag item
    · exact Or.inl still
    · exact Or.inr (Or.inl (Or.inl ⟨carries, still⟩))

theorem adds_origin
    (edit : Edit κ ε φ)
    (docAt : Nat → TagRegistry κ ε φ)
    (begun : Nat) :
    edit.Adds docAt begun begun edit.next :=
  fun _ _ added => Or.inl added.1

variable {last : Nat}

theorem ended_between
    (holds : Nat → Prop)
    {first : Nat}
    (ordered : first ≤ last)
    (held : holds first)
    (gone : ¬ holds last) :
    ∃ write, first ≤ write ∧ write < last ∧ holds write ∧ ¬ holds (write + 1) := by
  induction last, ordered using Nat.le_induction with
  | base => exact absurd held gone
  | succ last ordered inductionHypothesis =>
    by_cases still : holds last
    · exact ⟨last, ordered, Nat.lt_succ_self last, still, gone⟩
    · obtain ⟨write, since, before, ended⟩ := inductionHypothesis still
      exact ⟨write, since, Nat.lt_succ_of_lt before, ended⟩

/-- An edit whose value is merged with another device's registry. -/
def merged (edit : Edit κ ε φ) (base value theirs : TagRegistry κ ε φ) : Edit κ ε φ :=
  { edit with
    cut := edit.cut || MAX_TAGS < (standingTags base value theirs).length }

variable {theirs : TagRegistry κ ε φ} {tag : κ}

theorem has_or_cut
    (edit : Edit κ ε φ)
    (stands : tag ∈ idsOf (standingTags base value theirs)) :
    (mergeRegistries base value theirs).Has tag ∨
      (edit.merged base value theirs).cut = true := by
  by_cases room : (standingTags base value theirs).length ≤ MAX_TAGS
  · exact Or.inl (has_of_standing room stands)
  · refine Or.inr (Bool.or_eq_true_iff.mpr (Or.inr ?_))
    exact decide_eq_true (Nat.lt_of_not_le room)

theorem cut_merged
    (base value theirs : TagRegistry κ ε φ)
    (cut : edit.cut = true) :
    (edit.merged base value theirs).cut = true :=
  Bool.or_eq_true_iff.mpr (Or.inl cut)

theorem Keeps.has_merge
    (keeps : edit.Keeps base value)
    (has : theirs.Has tag) :
    (mergeRegistries base value theirs).Has tag ∨ edit.TookTag tag ∨
      (edit.merged base value theirs).cut = true := by
  by_cases mine : value.Has tag
  · rcases has_or_cut edit ((stands_of_ours mine).mpr (Or.inl has)) with
      merged | cut
    · exact Or.inl merged
    · exact Or.inr (Or.inr cut)
  by_cases before : base.Has tag
  · rcases keeps.tags tag before with still | took | cut
    · exact absurd still mine
    · exact Or.inr (Or.inl took)
    · exact Or.inr (Or.inr (cut_merged base value theirs cut))
  · rcases has_or_cut edit ((stands_of_theirs mine).mpr ⟨has, before⟩) with
      merged | cut
    · exact Or.inl merged
    · exact Or.inr (Or.inr cut)

/-- A merge keeps what the edit keeps. -/
theorem Keeps.merge
    (keeps : edit.Keeps base value)
    (valid : theirs.Valid) :
    (edit.merged base value theirs).Keeps theirs (mergeRegistries base value theirs) where
  tags _ has := keeps.has_merge has
  items tag item carries := by
    rcases keeps.has_merge (valid.listed tag item carries) with has | took | cut
    · by_cases before : base.Carries tag item
      · rcases keeps.items tag item before with still | took | cut
        · refine Or.inl (carries_mergeRegistries.mpr ⟨has, mem_mergedItems.mpr ?_⟩)
          exact Or.inl ⟨carries, fun both => both.2 still⟩
        · exact Or.inr (Or.inl took)
        · exact Or.inr (Or.inr (cut_merged base value theirs cut))
      · refine Or.inl (carries_mergeRegistries.mpr ⟨has, mem_mergedItems.mpr ?_⟩)
        exact Or.inl ⟨carries, fun both => before both.1⟩
    · exact Or.inr (Or.inl (Or.inr took))
    · exact Or.inr (Or.inr cut)

/-- A merge adds what the edit adds, but for what was lost since. -/
theorem Adds.merge
    {earlier later : Nat}
    (adds : edit.Adds docAt begun earlier value)
    (valid : value.Valid)
    (since : begun ≤ earlier)
    (ordered : earlier ≤ later)
    (isBase : Alike base (docAt earlier))
    (isTheirs : Alike theirs (docAt later)) :
    (edit.merged base value theirs).Adds docAt begun later
      (mergeRegistries base value theirs) := by
  intro tag item added
  -- A write between that took something out is a write since the edit began.
  have between : ∀ write, earlier ≤ write → write < later → Lost docAt write tag item →
      ∃ write, begun ≤ write ∧ write < later ∧ Lost docAt write tag item :=
    fun write from_ before lost => ⟨write, since.trans from_, before, lost⟩
  rcases adds tag item added with carries | cut | ⟨write, from_, before, lost⟩
  · have has := valid.listed tag item carries
    by_cases stands : tag ∈ idsOf (standingTags base value theirs)
    · rcases has_or_cut edit stands with merged | cut
      · by_cases kept : item ∈ mergedItems base value theirs tag
        · exact Or.inl (carries_mergeRegistries.mpr ⟨merged, kept⟩)
        · -- The base has it and theirs does not: a write between took it out.
          rw [mem_mergedItems, not_or] at kept
          have before : base.Carries tag item := by
            by_contra new
            exact kept.2 ⟨carries, new⟩
          have gone : ¬ theirs.Carries tag item := fun other =>
            kept.1 ⟨other, fun both => both.2 carries⟩
          obtain ⟨write, from_, until_, held, ended⟩ :=
            ended_between (fun write => (docAt write).Carries tag item) ordered
              ((isBase.carries tag item).mp before)
              (fun other => gone ((isTheirs.carries tag item).mpr other))
          exact Or.inr (Or.inr (between write from_ until_ (Or.inl ⟨held, ended⟩)))
      · exact Or.inr (Or.inl cut)
    · -- The base has the tag and theirs does not: a write between took it out.
      rw [stands_of_ours has, not_or, not_or, not_not] at stands
      obtain ⟨write, from_, until_, held, ended⟩ :=
        ended_between (fun write => (docAt write).Has tag) ordered
          ((isBase.has tag).mp stands.2.1)
          (fun other => stands.1 ((isTheirs.has tag).mpr other))
      exact Or.inr (Or.inr (between write from_ until_ (Or.inr ⟨held, ended⟩)))
  · exact Or.inr (Or.inl (cut_merged base value theirs cut))
  · exact Or.inr (Or.inr ⟨write, from_, before.trans_le ordered, lost⟩)

/-- A history of accepted writes: what each was an edit of, and when that began. -/
structure History (κ ε φ : Type) where
  count : Nat
  docAt : Nat → TagRegistry κ ε φ
  edit : Nat → Edit κ ε φ
  begun : Nat → Nat

/-- A history each write of which keeps what was there, and has what it added. -/
structure History.Sound (history : History κ ε φ) : Prop where
  begun : ∀ write < history.count, history.begun write ≤ write
  origin : ∀ write < history.count,
    Alike (history.edit write).origin (history.docAt (history.begun write))
  keeps : ∀ write < history.count,
    (history.edit write).Keeps (history.docAt write) (history.docAt (write + 1))
  adds : ∀ write < history.count,
    (history.edit write).Adds history.docAt (history.begun write) write
      (history.docAt (write + 1))

/-- Whether a write took an item from a tag, or the cap cut it. -/
def History.TakenBy (history : History κ ε φ) (tag item : κ) (write : Nat) : Prop :=
  (history.edit write).Took tag item ∨ (history.edit write).cut = true

variable {history : History κ ε φ} {item : κ}

theorem History.Sound.taken
    (sound : history.Sound)
    {write : Nat}
    (within : write < history.count)
    (lost : Lost history.docAt write tag item) :
    history.TakenBy tag item write := by
  rcases lost with ⟨carries, gone⟩ | ⟨has, gone⟩
  · exact ((sound.keeps write within).items tag item carries).resolve_left gone
  · rcases (sound.keeps write within).tags tag has with still | took | cut
    · exact absurd still gone
    · exact Or.inl (Or.inr took)
    · exact Or.inr cut

theorem History.Sound.carries_until
    (sound : history.Sound)
    {first : Nat}
    (ordered : first ≤ last)
    (within : last ≤ history.count)
    (carries : (history.docAt first).Carries tag item) :
    (history.docAt last).Carries tag item ∨
      ∃ write, first ≤ write ∧ write < last ∧ history.TakenBy tag item write := by
  by_cases still : (history.docAt last).Carries tag item
  · exact Or.inl still
  · obtain ⟨write, since, before, held, ended⟩ :=
      ended_between (fun write => (history.docAt write).Carries tag item) ordered
        carries still
    exact Or.inr ⟨write, since, before,
      sound.taken (before.trans_le within) (Or.inl ⟨held, ended⟩)⟩

/-- An added tag is carried until another edit takes it. -/
theorem History.Sound.added_until
    (sound : history.Sound)
    {write : Nat}
    (ordered : write < last)
    (within : last ≤ history.count)
    (added : (history.edit write).Added tag item) :
    (history.docAt last).Carries tag item ∨
      ∃ other, history.begun write ≤ other ∧ other < last ∧
        history.TakenBy tag item other := by
  have inside : write < history.count := ordered.trans_le within
  rcases sound.adds write inside tag item added with carries | cut | ⟨other, since, before, lost⟩
  · rcases sound.carries_until ordered within carries with still | ⟨other, after, before, taken⟩
    · exact Or.inl still
    · refine Or.inr ⟨other, ?_, before, taken⟩
      exact (sound.begun write inside).trans ((Nat.le_succ write).trans after)
  · exact Or.inr ⟨write, sound.begun write inside, ordered, Or.inr cut⟩
  · exact Or.inr ⟨other, since, before.trans ordered,
      sound.taken (before.trans inside) lost⟩

end Edit

end Tags

end HushOS
