/-
Lede.Lib.RefCount — how many owners refer to a slot.

Each owner refers to at most one slot. `refs` counts the owners of a slot, and `refs_update` says
what a change of one owner does to every count: the slot it leaves loses one, the slot it takes
gains one, and no other count changes.
-/
import Mathlib.Data.Finset.Card
import Mathlib.Data.Fintype.Defs
import Mathlib.Logic.Function.Basic

namespace Lede.Lib.RefCount

variable {ι α : Type*} [DecidableEq α]

/-- The number of owners in `I` that refer to the slot `a`. -/
def refs (I : Finset ι) (owner : ι → Option α) (a : α) : Nat :=
  (I.filter fun i => owner i = some a).card

variable {I : Finset ι} {owner : ι → Option α} {i : ι} {a : α} {o : Option α}

theorem refs_le : refs I owner a ≤ I.card := Finset.card_filter_le _ _

theorem refs_eq_zero : refs I owner a = 0 ↔ ∀ i ∈ I, owner i ≠ some a := by
  simp [refs, Finset.filter_eq_empty_iff]

theorem refs_pos (hi : i ∈ I) (h : owner i = some a) : 0 < refs I owner a := by
  rw [Nat.pos_iff_ne_zero, Ne, refs_eq_zero]
  exact fun hno => hno i hi h

variable [DecidableEq ι]

theorem filter_update_erase (owner : ι → Option α) (i : ι) (o : Option α) (a : α) :
    (I.filter fun j => Function.update owner i o j = some a).erase i =
      (I.filter fun j => owner j = some a).erase i := by
  ext j
  by_cases hj : j = i
  · simp [hj]
  · simp [hj]

/-- A change of one owner moves one reference. -/
theorem refs_update (hi : i ∈ I) (owner : ι → Option α) (o : Option α) (a : α) :
    refs I (Function.update owner i o) a + (if owner i = some a then 1 else 0) =
      refs I owner a + (if o = some a then 1 else 0) := by
  have hcard : ∀ w : ι → Option α, refs I w a =
      ((I.filter fun j => w j = some a).erase i).card + (if w i = some a then 1 else 0) := by
    intro w
    by_cases hw : w i = some a
    · have hmem : i ∈ I.filter fun j => w j = some a := by simp [hi, hw]
      rw [if_pos hw, Finset.card_erase_add_one hmem, refs]
    · have hmem : i ∉ I.filter fun j => w j = some a := by simp [hw]
      rw [if_neg hw, Finset.erase_eq_of_notMem hmem, refs, Nat.add_zero]
  rw [hcard owner, hcard (Function.update owner i o), filter_update_erase, Function.update_self]
  omega

end Lede.Lib.RefCount
