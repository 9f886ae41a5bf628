import Mathlib.Data.List.Basic

namespace Toolkit

/-!
# Cells with one owner

Contents kept in cells that are made one after another, each owned by one
owner at most, which may hand it on.  What is wiped is its owner's alone.
-/

namespace Cells

universe u v

variable {ι : Type u} {α : Type v}

/-- Each owner's cell was made, and is no other owner's. -/
structure Owned (at_ : ι → Option Nat) (made : Nat) : Prop where
  below : ∀ {owner cell}, at_ owner = some cell → cell < made
  alone : ∀ {owner other cell},
    at_ owner = some cell → at_ other = some cell → owner = other

/-- A cell that was made, and that no owner has. -/
structure Loose (at_ : ι → Option Nat) (made cell : Nat) : Prop where
  below : cell < made
  none_ : ∀ owner, at_ owner ≠ some cell

variable {before after : ι → Option Nat} {made later : Nat}

/-- Cells given to one owner each stay owned by one. -/
theorem Owned.given
    (owned : Owned before made)
    (more : made ≤ later)
    (gift : ι → Option Nat)
    (traced : ∀ {owner cell}, after owner = some cell →
      before owner = some cell ∨
        gift owner = some cell ∧ Loose before later cell)
    (apart : ∀ {owner other cell},
      gift owner = some cell → gift other = some cell → owner = other) :
    Owned after later where
  below := by
    intro owner cell isAt
    rcases traced isAt with kept | ⟨_, loose⟩
    · exact Nat.lt_of_lt_of_le (owned.below kept) more
    · exact loose.below
  alone := by
    intro owner other cell isAt isAtToo
    rcases traced isAt with kept | ⟨given, loose⟩
    · rcases traced isAtToo with keptToo | ⟨_, looseToo⟩
      · exact owned.alone kept keptToo
      · exact absurd kept (looseToo.none_ owner)
    · rcases traced isAtToo with keptToo | ⟨givenToo, _⟩
      · exact absurd keptToo (loose.none_ other)
      · exact apart given givenToo

theorem Owned.fewer
    (owned : Owned before made)
    (fewer : ∀ {owner cell}, after owner = some cell →
      before owner = some cell) :
    Owned after made :=
  owned.given (Nat.le_refl made) (fun _ => none) (Or.inl ∘ fewer)
    fun given => nomatch given

theorem Loose.keep
    {cell : Nat}
    (loose : Loose before made cell)
    (more : made ≤ later)
    (traced : ∀ {owner}, after owner = some cell →
      ∃ earlier, before earlier = some cell) :
    Loose after later cell where
  below := Nat.lt_of_lt_of_le loose.below more
  none_ := by
    intro owner isAt
    obtain ⟨earlier, wasAt⟩ := traced isAt
    exact loose.none_ earlier wasAt

/-- Contents with some cells wiped. -/
def wipe (blank : α → α) (gone : List Nat) (cells : Nat → α) : Nat → α :=
  fun cell => if cell ∈ gone then blank (cells cell) else cells cell

@[simp] theorem wipe_nil (blank : α → α) (cells : Nat → α) :
    wipe blank [] cells = cells := by
  funext cell
  exact if_neg List.not_mem_nil

theorem wipe_of_not_mem
    {blank : α → α}
    {gone : List Nat}
    {cells : Nat → α}
    {cell : Nat}
    (kept : cell ∉ gone) :
    wipe blank gone cells cell = cells cell :=
  if_neg kept

end Cells

end Toolkit
