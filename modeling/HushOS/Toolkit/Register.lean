import HushOS.Toolkit.Refusal

namespace Toolkit

open List

/-!
# Numbered registers

A register is a list of rows, each about a subject.  A row either adds an
entry to its subject or closes the subject for good.  In a numbered register
each row carries the number of its subject's next entry and follows no closing
row of its subject; then a subject's entries are numbered 1, 2, 3, ... in the
order they stand, and nothing stands after a subject's closing row.
-/

section Register

variable {ρ : Type u} {κ : Type v} [DecidableEq κ]
variable (subject : ρ → κ) (number : ρ → Nat) (closing : ρ → Bool)

/-- The rows that add an entry to a subject. -/
def entriesOf (key : κ) (rows : List ρ) : List ρ :=
  rows.filter fun row => subject row = key && !closing row

/-- A row that may come next: numbered next, its subject not closed. -/
structure MayFollow (rows : List ρ) (row : ρ) : Prop where
  number_eq :
    number row = (entriesOf subject closing (subject row) rows).length + 1
  unclosed : ∀ earlier ∈ rows,
    subject earlier = subject row → closing earlier = false

/-- A register each row of which may follow the ones before it. -/
def Numbered (rows : List ρ) : Prop :=
  ∀ before row after, rows = before ++ row :: after →
    MayFollow subject number closing before row

variable {subject number closing}

theorem numbered_nil : Numbered subject number closing [] := by
  intro before row after impossible
  simp at impossible

/-- Rows are numbered when the last may follow the others. -/
theorem numbered_concat
    {rows : List ρ}
    {row : ρ} :
    Numbered subject number closing (rows ++ [row]) ↔
      Numbered subject number closing rows ∧
        MayFollow subject number closing rows row := by
  constructor
  · intro numbered
    refine ⟨?_, numbered rows row [] rfl⟩
    intro before other after whole
    exact numbered before other (after ++ [row]) (by simp [whole])
  · rintro ⟨numbered, follows⟩ before other after whole
    rcases eq_nil_or_concat after with rfl | ⟨init, last, rfl⟩
    · obtain ⟨rfl, same⟩ := append_inj' whole rfl
      simp only [List.cons.injEq, and_true] at same
      exact same ▸ follows
    · have split :
          rows ++ [row] = (before ++ other :: init) ++ [last] := by
        simp [whole]
      obtain ⟨rfl, _⟩ := append_inj' split rfl
      exact numbered before other init rfl

theorem entriesOf_append
    (key : κ)
    (first second : List ρ) :
    entriesOf subject closing key (first ++ second) =
      entriesOf subject closing key first ++
        entriesOf subject closing key second :=
  filter_append _ _

/-- A batch of distinct subjects that may follow stays numbered. -/
theorem numbered_append
    {rows batch : List ρ}
    (numbered : Numbered subject number closing rows)
    (distinct : (batch.map subject).Nodup)
    (follow : ∀ row ∈ batch, MayFollow subject number closing rows row) :
    Numbered subject number closing (rows ++ batch) := by
  induction batch using List.reverseRecOn with
  | nil =>
    simpa using numbered
  | append_singleton batch row inductionHypothesis =>
    simp only [map_append, map_cons, map_nil,
      nodup_append, mem_map, mem_singleton,
      forall_exists_index, and_imp, forall_apply_eq_imp_iff₂,
      forall_eq] at distinct
    obtain ⟨distinct, _, apart⟩ := distinct
    rw [← append_assoc, numbered_concat]
    refine ⟨inductionHypothesis distinct
      fun other member => follow other (by simp [member]), ?_⟩
    have rowFollows := follow row (by simp)
    have noEntries :
        entriesOf subject closing (subject row) batch = [] := by
      rw [entriesOf, filter_eq_nil_iff]
      intro other member
      simp [apart other member]
    constructor
    · rw [entriesOf_append, noEntries, append_nil]
      exact rowFollows.number_eq
    · intro earlier member same
      rcases mem_append.mp member with inRows | inBatch
      · exact rowFollows.unclosed earlier inRows same
      · exact absurd same (apart earlier inBatch)

/-- A subject's entries are numbered from 1 without a gap. -/
theorem map_number_entriesOf
    {rows : List ρ}
    (numbered : Numbered subject number closing rows)
    (key : κ) :
    (entriesOf subject closing key rows).map number =
      List.range' 1 (entriesOf subject closing key rows).length := by
  induction rows using List.reverseRecOn with
  | nil =>
    rfl
  | append_singleton rows row inductionHypothesis =>
    obtain ⟨before, follows⟩ := numbered_concat.mp numbered
    have earlier := inductionHypothesis before
    rw [entriesOf_append]
    by_cases own : subject row = key ∧ closing row = false
    · obtain ⟨rfl, opens⟩ := own
      have last :
          entriesOf subject closing (subject row) [row] = [row] := by
        simp [entriesOf, opens]
      rw [last, map_append, earlier, map_cons, map_nil,
        follows.number_eq, length_append, length_singleton,
        List.range'_1_concat, Nat.add_comm 1]
    · have skipped : entriesOf subject closing key [row] = [] := by
        simpa [entriesOf] using own
      rw [skipped, append_nil, earlier]

/-- No row after a closing one is of its subject. -/
theorem subject_ne_of_closed
    {rows before after : List ρ}
    {row : ρ}
    (numbered : Numbered subject number closing rows)
    (whole : rows = before ++ row :: after)
    (closed : closing row = true)
    {later : ρ}
    (member : later ∈ after) :
    subject later ≠ subject row := by
  obtain ⟨between, rest, rfl⟩ := append_of_mem member
  have follows := numbered (before ++ row :: between) later rest
    (by simp [whole])
  intro same
  have opens := follows.unclosed row (by simp) same.symm
  rw [closed] at opens
  simp at opens

end Register

theorem getElem?_of_getLast?
    {items : List α}
    {item : α}
    {length : Nat}
    (sized : items.length = length)
    (isLast : items.getLast? = some item) :
    items[length - 1]? = some item := by
  rwa [← sized, ← getLast?_eq_getElem?]

theorem getElem?_of_begins
    {items whole : List α}
    (begins : items <+: whole)
    {index : Nat}
    {item : α}
    (found : items[index]? = some item) :
    whole[index]? = some item := by
  obtain ⟨rest, rfl⟩ := begins
  have inside := (List.getElem?_eq_some_iff.mp found).1
  rw [getElem?_append_left inside, found]

end Toolkit
