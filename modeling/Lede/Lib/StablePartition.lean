/-
Lede.Lib.StablePartition — the stable partition of an initial segment of the
naturals by a predicate.

List the `i < n` that satisfy `p` in ascending order, then those that do not:
`rank p n i` is the position of `i` in that list. It is a permutation of
`[0, n)` (`rank_lt`, `rank_inj`, `exists_rank_eq`), and `rank_clear_iff` says
which positions survive when one member of `p` leaves it.
-/
import Mathlib.Data.Nat.Count
import Mathlib.Data.Fintype.Card
import Mathlib.Data.Fintype.EquivFin
import Mathlib.Tactic.Common

namespace Lede.Lib

/-! ## Counting a predicate and its complement -/

theorem count_add_count_not (p : Nat → Prop) [DecidablePred p] (n : Nat) :
    Nat.count p n + Nat.count (fun k => ¬ p k) n = n := by
  induction n with
  | zero => simp
  | succ n ih =>
    rw [Nat.count_succ, Nat.count_succ]
    by_cases h : p n
    · simp [h]; omega
    · simp [h]; omega

/-- Removing one member lowers the counts behind it by one. -/
theorem count_clear (p : Nat → Prop) [DecidablePred p] {m : Nat} (hm : p m) (n : Nat) :
    Nat.count (fun k => p k ∧ k ≠ m) n + (if m < n then 1 else 0) = Nat.count p n := by
  induction n with
  | zero => simp
  | succ n ih =>
    rw [Nat.count_succ, Nat.count_succ]
    rcases Nat.lt_trichotomy m n with h | h | h
    · have hne : n ≠ m := by omega
      rw [if_pos h] at ih
      rw [if_pos (by omega : m < n + 1)]
      by_cases hp : p n <;> simp [hp, hne] <;> omega
    · subst h
      simp only [Nat.lt_irrefl, if_false, Nat.add_zero] at ih
      simp [hm, ih]
    · have hne : n ≠ m := by omega
      rw [if_neg (by omega : ¬ m < n)] at ih
      rw [if_neg (by omega : ¬ m < n + 1)]
      by_cases hp : p n <;> simp [hp, hne] <;> omega

/-! ## The position in the partition -/

section Rank

variable (p : Nat → Prop) [DecidablePred p] (n : Nat)

/-- The position of `i` when the members of `p` below `n` come first. -/
def rank (i : Nat) : Nat :=
  if p i then Nat.count p i else Nat.count p n + Nat.count (fun k => ¬ p k) i

variable {p n}

theorem rank_of_mem {i : Nat} (h : p i) : rank p n i = Nat.count p i := if_pos h

theorem rank_of_not_mem {i : Nat} (h : ¬ p i) :
    rank p n i = Nat.count p n + Nat.count (fun k => ¬ p k) i := if_neg h

theorem rank_congr {q : Nat → Prop} [DecidablePred q] (h : ∀ k, p k ↔ q k) (i : Nat) :
    rank p n i = rank q n i := by
  obtain rfl : p = q := funext fun k => propext (h k)
  congr

/-- Members come before the count of all members. -/
theorem rank_lt_count {i : Nat} (h : p i) (hi : i < n) : rank p n i < Nat.count p n := by
  rw [rank_of_mem h]
  exact Nat.count_strict_mono h hi

theorem rank_lt {i : Nat} (hi : i < n) : rank p n i < n := by
  by_cases h : p i
  · exact Nat.lt_of_lt_of_le (rank_lt_count h hi) (Nat.count_le p)
  · have hstrict : Nat.count (fun k => ¬ p k) i < Nat.count (fun k => ¬ p k) n :=
      Nat.count_strict_mono h hi
    have hsum := count_add_count_not p n
    rw [rank_of_not_mem h]
    omega

theorem rank_inj {i j : Nat} (hi : i < n) (hj : j < n) (h : rank p n i = rank p n j) : i = j := by
  by_cases pi : p i <;> by_cases pj : p j
  · rw [rank_of_mem pi, rank_of_mem pj] at h
    exact Nat.count_injective pi pj h
  · have h₁ := rank_lt_count pi hi
    rw [rank_of_not_mem pj] at h
    omega
  · have h₁ := rank_lt_count pj hj
    rw [rank_of_not_mem pi] at h
    omega
  · rw [rank_of_not_mem pi, rank_of_not_mem pj] at h
    exact Nat.count_injective (p := fun k => ¬ p k) pi pj (by omega)

/-- Every position below `n` is taken. -/
theorem exists_rank_eq {k : Nat} (hk : k < n) : ∃ i < n, rank p n i = k := by
  let f : Fin n → Fin n := fun i => ⟨rank p n i, rank_lt i.isLt⟩
  have hinj : Function.Injective f := fun i j h =>
    Fin.ext (rank_inj i.isLt j.isLt (congrArg Fin.val h))
  obtain ⟨i, hi⟩ := Finite.injective_iff_surjective.mp hinj ⟨k, hk⟩
  exact ⟨i, i.isLt, congrArg Fin.val hi⟩

/-- When `m` leaves the predicate, another element keeps its position exactly
when it is a member before `m` or a non-member behind `m`. -/
theorem rank_clear_iff {m i : Nat} (hm : p m) (hmn : m < n) (hne : i ≠ m) :
    rank (fun k => p k ∧ k ≠ m) n i = rank p n i ↔ if p i then i < m else m < i := by
  have hn := count_clear p hm n
  have hi := count_clear p hm i
  rw [if_pos hmn] at hn
  by_cases pi : p i
  · have hq : p i ∧ i ≠ m := ⟨pi, hne⟩
    rw [rank_of_mem hq, rank_of_mem pi, if_pos pi]
    split at hi <;> omega
  · have hq : ¬ (p i ∧ i ≠ m) := fun h => pi h.1
    have h₁ := count_add_count_not p i
    have h₂ := count_add_count_not (fun k => p k ∧ k ≠ m) i
    rw [rank_of_not_mem hq, rank_of_not_mem pi, if_neg pi]
    split at hi <;> omega

end Rank

end Lede.Lib
