/-
Lede.Lib.Moves — cells copied one at a time between ranges that may overlap.

`Relocated before after dst src n` is what an assignment of `n` cells at once does: the cell
`dst k` holds what `src k` held, and no other cell differs. Copies made one after another come to
the same when no copy reads a cell, or writes a cell, that an earlier one wrote; which order
keeps that is a matter of the two ranges.
-/
import Mathlib.Logic.Function.Basic
import Mathlib.Order.Basic

namespace Lede.Lib.Moves

variable {I A : Type*}

structure Relocated (before after : I → A) (dst src : Nat → I) (n : Nat) : Prop where
  moved : ∀ k, k < n → after (dst k) = before (src k)
  kept : ∀ i, (∀ k, k < n → dst k ≠ i) → after i = before i

/-- The order of the copies is a safe one: copy `k` reads and writes cells that no earlier copy
wrote. -/
structure Unhindered (dst src : Nat → I) (count : Nat) : Prop where
  source : ∀ j k, j < k → k < count → dst j ≠ src k
  target : ∀ j k, j < k → k < count → dst j ≠ dst k

variable {before after : I → A} {dst src dst' src' : Nat → I} {n count : Nat}

theorem Relocated.zero (before : I → A) (dst src : Nat → I) :
    Relocated before before dst src 0 where
  moved := by simp
  kept := by simp

/-- The source of the next copy still holds what it held at first. -/
theorem Relocated.source_kept (h : Relocated before after dst src n)
    (ho : Unhindered dst src count) (hn : n < count) : after (src n) = before (src n) :=
  h.kept _ fun k hk => ho.source k n hk hn

/-- One more copy. -/
theorem Relocated.step [DecidableEq I] (h : Relocated before after dst src n)
    (ho : Unhindered dst src count) (hn : n < count) :
    Relocated before (Function.update after (dst n) (after (src n))) dst src (n + 1) where
  moved := by
    intro k hk
    rcases Nat.lt_succ_iff_lt_or_eq.mp hk with hlt | rfl
    · rw [Function.update_of_ne (ho.target k n hlt hn)]
      exact h.moved k hlt
    · rw [Function.update_self, h.source_kept ho hn]
  kept := by
    intro i hi
    rw [Function.update_of_ne (hi n n.lt_succ_self).symm]
    exact h.kept i fun k hk => hi k (Nat.lt_succ_of_lt hk)

/-- The order in which the copies are counted does not matter to what they come to. -/
theorem Relocated.reorder (h : Relocated before after dst src n) (turn : Nat → Nat)
    (hlt : ∀ k, k < n → turn k < n) (hturn : ∀ k, k < n → turn (turn k) = k)
    (hdst : ∀ k, k < n → dst' k = dst (turn k)) (hsrc : ∀ k, k < n → src' k = src (turn k)) :
    Relocated before after dst' src' n where
  moved := by
    intro k hk
    rw [hdst k hk, hsrc k hk]
    exact h.moved _ (hlt k hk)
  kept := by
    intro i hi
    refine h.kept i fun k hk => ?_
    have hne := hi (turn k) (hlt k hk)
    rwa [hdst _ (hlt k hk), hturn k hk] at hne

end Lede.Lib.Moves
