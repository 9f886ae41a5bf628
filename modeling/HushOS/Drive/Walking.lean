import HushOS.Drive.Changes

namespace HushOS

open Toolkit List

namespace Drive

/-!
# What walks find

A walk is the chain of rows from a node up to a root, each the row under its
predecessor's parent.  The lemmas say what a walk tells of the tables, and
which writes leave a chain as it was.
-/

/-- The rows from a node up to a root, the node first. -/
def Climb (nodes : OrderedMap Uuid Node) : Uuid → List (Uuid × Node) → Prop
  | _, [] => False
  | id, entry :: above =>
    entry.1 = id ∧ nodes.get? id = some entry.2 ∧
      match entry.2.parentId with
      | none => above = []
      | some parentId => Climb nodes parentId above

/-- The walk a chain of rows makes. -/
def walkOf (self : Uuid × Node) (above : List (Uuid × Node)) : Walk where
  id := self.1
  node := self.2
  ancestors := above.reverse.map ancestorOf
  depth := above.length
  trashed := (self :: above).any fun row => row.2.trashedAt.isSome
  trashedAncestors :=
    ((above.filter fun row => row.2.trashedAt.isSome).map Prod.fst).reverse
  purged := (self :: above).any fun row => row.2.purgedAt.isSome
  rootId := (above.getLast?.getD self).1

section Chains

variable {nodes : OrderedMap Uuid Node}

theorem length_chainFrom
    (nodes : OrderedMap Uuid Node)
    (cap : Nat)
    (id : Uuid) :
    (chainFrom nodes cap id).length ≤ cap := by
  induction cap generalizing id with
  | zero => exact le_refl 0
  | succ cap inductionHypothesis =>
    unfold chainFrom
    cases nodes.get? id with
    | none => exact Nat.zero_le _
    | some row =>
      cases parent : row.parentId with
      | none => simp [parent]
      | some parentId =>
        simp only [parent, length_cons]
        exact Nat.succ_le_succ (inductionHypothesis parentId)

variable {id : Uuid}

/-- A chain that ends at a root is the climb of its node. -/
theorem climb_of_chainFrom
    {cap : Nat}
    {top : Uuid × Node}
    (reached : (chainFrom nodes cap id).getLast? = some top)
    (isRoot : top.2.parentId = none) :
    Climb nodes id (chainFrom nodes cap id) := by
  induction cap generalizing id with
  | zero =>
    cases reached
  | succ cap inductionHypothesis =>
    unfold chainFrom at reached ⊢
    cases found : nodes.get? id with
    | none =>
      rw [found] at reached
      cases reached
    | some row =>
      rw [found] at reached
      refine ⟨rfl, found, ?_⟩
      cases parent : row.parentId with
      | none => rfl
      | some parentId =>
        simp only [parent, getLast?_cons] at reached ⊢
        cases rest : (chainFrom nodes cap parentId).getLast? with
        | none =>
          rw [rest] at reached
          simp only [Option.getD_none, Option.some.injEq] at reached
          subst reached
          exact absurd (parent.symm.trans isRoot) (by simp)
        | some last =>
          rw [rest] at reached
          exact inductionHypothesis (rest.trans reached)

theorem chainFrom_of_climb
    {cap : Nat}
    {rows : List (Uuid × Node)}
    (climb : Climb nodes id rows)
    (within : rows.length ≤ cap) :
    chainFrom nodes cap id = rows := by
  induction cap generalizing id rows with
  | zero =>
    cases rows with
    | nil => rfl
    | cons _ _ => cases within
  | succ cap inductionHypothesis =>
    cases rows with
    | nil => cases climb
    | cons entry above =>
      obtain ⟨rfl, found, rest⟩ := climb
      have short : above.length ≤ cap := Nat.le_of_succ_le_succ within
      simp only [chainFrom, found]
      cases parent : entry.2.parentId with
      | none =>
        rw [parent] at rest
        rw [rest]
      | some parentId =>
        rw [parent] at rest
        simp only [inductionHypothesis rest short]

theorem top_of_climb
    {self : Uuid × Node}
    {above : List (Uuid × Node)}
    (climb : Climb nodes id (self :: above)) :
    (above.getLast?.getD self).2.parentId = none := by
  induction above generalizing id self with
  | nil =>
    obtain ⟨_, _, rest⟩ := climb
    cases parent : self.2.parentId with
    | none => exact parent
    | some parentId =>
      rw [parent] at rest
      cases rest
  | cons next rest inductionHypothesis =>
    obtain ⟨_, _, upper⟩ := climb
    cases parent : self.2.parentId with
    | none =>
      rw [parent] at upper
      cases upper
    | some parentId =>
      rw [parent] at upper
      rw [getLast?_cons]
      exact inductionHypothesis upper

theorem lineage_of_climb
    {self : Uuid × Node}
    {above : List (Uuid × Node)}
    (climb : Climb nodes id (self :: above)) :
    Lineage nodes id (above.map Prod.fst) := by
  induction above generalizing id self with
  | nil =>
    have isRoot := top_of_climb climb
    obtain ⟨_, found, _⟩ := climb
    exact ⟨self.2, found, isRoot⟩
  | cons next rest inductionHypothesis =>
    obtain ⟨_, found, upper⟩ := climb
    cases parent : self.2.parentId with
    | none =>
      rw [parent] at upper
      cases upper
    | some parentId =>
      rw [parent] at upper
      have same : next.1 = parentId := upper.1
      rw [← same] at upper
      exact ⟨self.2, found, same ▸ parent, inductionHypothesis upper⟩

end Chains

section Walks

variable {db : Database}

/-- A walk is found exactly for a climb within the cap. -/
theorem walk_eq_some
    {id : Uuid}
    {walked : Walk} :
    walk db id = some walked ↔
      ∃ self above, Climb db.nodes id (self :: above) ∧
        (self :: above).length ≤ WALK_CAP ∧ walked = walkOf self above := by
  constructor
  · intro found
    unfold walk at found
    cases rows : chainFrom db.nodes WALK_CAP id with
    | nil =>
      rw [rows] at found
      cases found
    | cons self above =>
      rw [rows] at found
      simp only [chainWalk] at found
      split at found
      · next isRoot =>
          have climb : Climb db.nodes id (self :: above) := by
            rw [← rows]
            refine climb_of_chainFrom ?_ isRoot
            rw [rows, getLast?_cons]
          refine ⟨self, above, climb, ?_, (Option.some.inj found).symm⟩
          rw [← rows]
          exact length_chainFrom db.nodes WALK_CAP id
      · cases found
  · rintro ⟨self, above, climb, within, rfl⟩
    rw [walk, chainFrom_of_climb climb within]
    simp only [chainWalk]
    rw [if_pos (top_of_climb climb)]
    rfl

theorem nearestFirst_walkOf
    (self : Uuid × Node)
    (above : List (Uuid × Node)) :
    nearestFirst (walkOf self above).ancestors = above.map Prod.fst := by
  simp [nearestFirst, walkOf, ancestorOf, Function.comp_def]

theorem nearestFirst_path (walked : Walk) :
    nearestFirst walked.path = walked.id :: nearestFirst walked.ancestors := by
  simp [nearestFirst, Walk.path, ancestorOf]

theorem length_path (walked : Walk) :
    walked.path.length = walked.ancestors.length + 1 := by
  simp [Walk.path]

/-- What a walk tells of the tables. -/
structure Walked (db : Database) (id : Uuid) (walked : Walk) : Prop where
  itsId : walked.id = id
  found : db.nodes.get? id = some walked.node
  lineage : Lineage db.nodes id (nearestFirst walked.ancestors)
  depth : walked.depth = walked.ancestors.length
  kept : walked.purged = false → walked.node.purgedAt = none
  untrashed : walked.trashed = false → walked.node.trashedAt = none
  top : walked.rootId = ((nearestFirst walked.ancestors).getLast?).getD id

/-- What a walk says is so of its climb. -/
theorem walked_of_walk
    {id : Uuid}
    {walked : Walk}
    (reached : walk db id = some walked) :
    Walked db id walked := by
  obtain ⟨self, above, climb, _, rfl⟩ := walk_eq_some.mp reached
  have lineage := lineage_of_climb climb
  obtain ⟨same, found, _⟩ := climb
  refine
    { itsId := same
      found := found
      lineage := ?_
      depth := ?_
      kept := ?_
      untrashed := ?_
      top := ?_ }
  · rw [nearestFirst_walkOf]
    exact lineage
  · simp [walkOf]
  · intro kept
    simp only [walkOf, any_cons, Bool.or_eq_false_iff] at kept
    simpa [walkOf] using kept.1
  · intro untrashed
    simp only [walkOf, any_cons, Bool.or_eq_false_iff] at untrashed
    simpa [walkOf] using untrashed.1
  · rw [nearestFirst_walkOf, getLast?_map]
    cases last : above.getLast? with
    | none => simp [walkOf, last, same]
    | some top => simp [walkOf, last]

theorem inside_eq_true {walked : Walk} {id : Uuid} :
    walked.inside id = true ↔ id ∈ nearestFirst walked.path := by
  rw [nearestFirst_path]
  simp only [Walk.inside, Bool.or_eq_true, decide_eq_true_eq, any_eq_true,
    mem_cons, nearestFirst, mem_reverse, mem_map]
  constructor
  · rintro (same | ⟨ancestor, member, same⟩)
    · exact .inl same.symm
    · exact .inr ⟨ancestor, member, same⟩
  · rintro (same | ⟨ancestor, member, same⟩)
    · exact .inl same.symm
    · exact .inr ⟨ancestor, member, same⟩

variable {answer : Answer}

/-- A walk here is one in the workspace with nothing purged. -/
theorem walkHere_eq_ok
    {workspaceId nodeId : Uuid}
    {walked : Walk} :
    walkHere db workspaceId nodeId answer = .ok walked ↔
      walk db nodeId = some walked ∧
        walked.node.workspaceId = workspaceId ∧ walked.purged = false := by
  unfold walkHere
  cases walk db nodeId with
  | none => simp
  | some found =>
    simp only [Option.some.injEq]
    split
    · next here =>
        simp only [Walk.here, Bool.and_eq_true, decide_eq_true_eq,
          Bool.not_eq_true'] at here
        constructor
        · intro equal
          obtain rfl := Except.ok.inj equal
          exact ⟨rfl, here⟩
        · rintro ⟨rfl, _⟩
          rfl
    · next elsewhere =>
        constructor
        · intro equal
          cases equal
        · rintro ⟨rfl, here⟩
          exact absurd (by simpa [Walk.here] using here) elsewhere

theorem walkTo_eq_ok
    {workspaceId nodeId : Uuid}
    {kind : NodeKind}
    {walked : Walk} :
    walkTo db workspaceId nodeId kind answer = .ok walked ↔
      walk db nodeId = some walked ∧
        walked.node.workspaceId = workspaceId ∧ walked.purged = false ∧
        walked.node.kind = kind := by
  unfold walkTo
  rw [bind_eq_ok]
  constructor
  · rintro ⟨found, here, rest⟩
    rw [bind_eq_ok] at rest
    obtain ⟨⟨⟩, sameKind, equal⟩ := rest
    obtain rfl := Except.ok.inj equal
    obtain ⟨reached, inside, kept⟩ := walkHere_eq_ok.mp here
    exact ⟨reached, inside, kept, by simpa using sameKind⟩
  · rintro ⟨reached, inside, kept, sameKind⟩
    refine ⟨walked, walkHere_eq_ok.mpr ⟨reached, inside, kept⟩, ?_⟩
    rw [bind_eq_ok]
    exact ⟨(), by simp [sameKind], rfl⟩

theorem orRefuse_eq_ok
    {found : Option α}
    {value : α} :
    orRefuse found answer = .ok value ↔ found = some value := by
  cases found with
  | none => simp [orRefuse]
  | some _ => simp [orRefuse]

theorem Sound.holdsPath
    (sound : Sound db)
    {workspaceId parentId : Uuid}
    {parent : Walk}
    (reached : walk db parentId = some parent)
    (folder : parent.node.kind = .folder)
    (inside : parent.node.workspaceId = workspaceId) :
    HoldsPath db workspaceId parentId parent.path := by
  have walked := walked_of_walk reached
  refine ⟨⟨parent.node, walked.found, folder, inside, ?_⟩,
    nearestFirst parent.ancestors, ?_, walked.lineage⟩
  · exact sound.shown walked.found (.inl folder)
  · rw [nearestFirst_path, walked.itsId]

end Walks

end Drive

end HushOS
