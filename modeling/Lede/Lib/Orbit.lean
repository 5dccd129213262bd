/-
Lede.Lib.Orbit — walks that follow what they find.

A walk goes from a place to the `next` one, as long as there is one: over the nodes of a block by
their lengths, over the blocks of a file by their links. Nothing says that it gets anywhere. Where
it goes on from finitely many places, it goes on as often at most, or for ever (`ends_iff`). A walk
that carries more along ends when the one over the places does (`ends_map`).
-/
import Mathlib.Data.Finset.Card
import Mathlib.Data.Finset.Range

namespace Lede.Lib.Orbit

variable {α β : Type*} {next : α → Option α} {x y : α}

/-- The place after some steps, if the walk has not ended before. -/
def walkAt (next : α → Option α) (x : α) : Nat → Option α
  | 0 => some x
  | k + 1 => (walkAt next x k).bind next

@[simp] theorem walkAt_zero (next : α → Option α) (x : α) : walkAt next x 0 = some x := rfl

theorem walkAt_succ (next : α → Option α) (x : α) (k : Nat) :
    walkAt next x (k + 1) = (walkAt next x k).bind next := rfl

theorem walkAt_add (j k : Nat) :
    walkAt next x (j + k) = (walkAt next x j).bind fun y => walkAt next y k := by
  induction k with
  | zero => simp
  | succ k ih =>
    rw [← Nat.add_assoc, walkAt_succ, ih, Option.bind_assoc]
    rfl

/-- A walk that has ended stays at its end. -/
theorem walkAt_eq_none_of_le {j k : Nat} (h : walkAt next x j = none) (hjk : j ≤ k) :
    walkAt next x k = none := by
  obtain ⟨d, rfl⟩ := Nat.exists_eq_add_of_le hjk
  rw [walkAt_add, h, Option.bind_none]

theorem walkAt_isSome_of_le {j k : Nat} (h : walkAt next x k ≠ none) (hjk : j ≤ k) :
    ∃ y, walkAt next x j = some y :=
  Option.ne_none_iff_exists'.1 fun hj => h (walkAt_eq_none_of_le hj hjk)

/-- A walk that comes back goes round for ever. -/
theorem walkAt_ne_none_of_return {p : Nat} (hp : 0 < p) (h : walkAt next x p = some x) (k : Nat) :
    walkAt next x k ≠ none := by
  have hround : ∀ n, walkAt next x (p * n) = some x := by
    intro n
    induction n with
    | zero => rfl
    | succ n ih => rw [Nat.mul_succ, walkAt_add, ih, Option.bind_some, h]
  intro hnone
  have hle : k ≤ p * k := Nat.le_mul_of_pos_left k hp
  have hend := walkAt_eq_none_of_le hnone hle
  rw [hround k] at hend
  cases hend

theorem walkAt_ne_none_of_repeat {i j : Nat} (hij : i < j) (hi : walkAt next x i = some y)
    (hj : walkAt next x j = some y) (k : Nat) : walkAt next x k ≠ none := by
  have hreturn : walkAt next y (j - i) = some y := by
    have hadd : walkAt next x (i + (j - i)) = _ := walkAt_add i (j - i)
    rwa [Nat.add_sub_cancel' hij.le, hj, hi, Option.bind_some, eq_comm] at hadd
  intro hnone
  have hend := walkAt_eq_none_of_le hnone (Nat.le_add_left k i)
  rw [walkAt_add, hi, Option.bind_some] at hend
  exact walkAt_ne_none_of_return (Nat.sub_pos_of_lt hij) hreturn k hend

/-- The walk ends. -/
def Ends (next : α → Option α) (x : α) : Prop := ∃ k, walkAt next x k = none

/-- A walk that goes on from the places of a finite set alone goes on as often at most, or for
ever. -/
theorem ends_iff (places : Finset α)
    (h : ∀ k y, walkAt next x k = some y → next y ≠ none → y ∈ places) :
    Ends next x ↔ walkAt next x (places.card + 1) = none := by
  refine ⟨fun ⟨k, hk⟩ => ?_, fun hend => ⟨_, hend⟩⟩
  by_contra hne
  -- it goes on once more than there are places
  have hplace : ∀ j ∈ Finset.range (places.card + 1), walkAt next x j ∈ places.map .some := by
    intro j hj
    rw [Finset.mem_range] at hj
    obtain ⟨y, hy⟩ := walkAt_isSome_of_le hne hj.le
    obtain ⟨z, hz⟩ := walkAt_isSome_of_le hne (Nat.succ_le_of_lt hj)
    rw [walkAt_succ, hy, Option.bind_some] at hz
    rw [hy, Finset.mem_map]
    exact ⟨y, h j y hy (by rw [hz]; exact Option.some_ne_none z), rfl⟩
  obtain ⟨i, hi, j, hj, hij, heq⟩ := Finset.exists_ne_map_eq_of_card_lt_of_maps_to
    (by rw [Finset.card_map, Finset.card_range]; exact Nat.lt_succ_self _) hplace
  rw [Finset.mem_range] at hi
  obtain ⟨y, hy⟩ := walkAt_isSome_of_le hne hi.le
  obtain hlt | hlt := Nat.lt_or_gt_of_ne hij
  · exact walkAt_ne_none_of_repeat hlt hy (heq ▸ hy) k hk
  · exact walkAt_ne_none_of_repeat hlt (heq ▸ hy) hy k hk

/-! ## Places of a walk -/

theorem walkAt_succ_left (next : α → Option α) (x : α) (k : Nat) :
    walkAt next x (k + 1) = (next x).bind fun y => walkAt next y k := by
  rw [Nat.add_comm, walkAt_add]
  rfl

/-- The walk from `x` comes to `y`. -/
def ComesTo (next : α → Option α) (x y : α) : Prop := ∃ k, walkAt next x k = some y

theorem comesTo_iff : ComesTo next x y ↔ y = x ∨ ∃ x', next x = some x' ∧ ComesTo next x' y := by
  constructor
  · rintro ⟨k, hk⟩
    cases k with
    | zero => exact .inl (Option.some.inj hk).symm
    | succ k =>
      rw [walkAt_succ_left] at hk
      obtain ⟨x', hx', hk⟩ := Option.bind_eq_some_iff.1 hk
      exact .inr ⟨x', hx', k, hk⟩
  · rintro (rfl | ⟨x', hx', k, hk⟩)
    · exact ⟨0, rfl⟩
    · exact ⟨k + 1, by rw [walkAt_succ_left, hx', Option.bind_some, hk]⟩

theorem ends_of_none (h : next x = none) : Ends next x := ⟨1, by rw [walkAt_succ_left, h]; rfl⟩

theorem ends_of_some {x' : α} (h : next x = some x') : Ends next x ↔ Ends next x' := by
  constructor
  · rintro ⟨k, hk⟩
    cases k with
    | zero => cases hk
    | succ k =>
      rw [walkAt_succ_left, h] at hk
      exact ⟨k, hk⟩
  · rintro ⟨k, hk⟩
    exact ⟨k + 1, by rw [walkAt_succ_left, h]; exact hk⟩

/-- A walk stops at one place at most. -/
theorem ComesTo.stop_unique {z : α} (hy : ComesTo next x y) (hz : ComesTo next x z)
    (hny : next y = none) (hnz : next z = none) : y = z := by
  obtain ⟨j, hj⟩ := hy
  induction j generalizing x with
  | zero =>
    obtain rfl := Option.some.inj hj
    rcases comesTo_iff.1 hz with rfl | ⟨x', hx', -⟩
    · rfl
    · rw [hny] at hx'
      cases hx'
  | succ j ih =>
    rw [walkAt_succ_left] at hj
    obtain ⟨x', hx', hj⟩ := Option.bind_eq_some_iff.1 hj
    rcases comesTo_iff.1 hz with rfl | ⟨x'', hx'', hz'⟩
    · rw [hnz] at hx'
      cases hx'
    · obtain rfl : x' = x'' := Option.some.inj (hx'.symm.trans hx'')
      exact ih hz' hj

/-- A walk that carries more along is at the same places. -/
theorem walkAt_map {step : β → Option β} {place : β → α}
    (h : ∀ s, next (place s) = (step s).map place) (s : β) (k : Nat) :
    walkAt next (place s) k = (walkAt step s k).map place := by
  induction k with
  | zero => rfl
  | succ k ih =>
    rw [walkAt_succ, walkAt_succ, ih]
    cases walkAt step s k with
    | none => rfl
    | some s' => exact h s'

theorem ends_map {step : β → Option β} {place : β → α}
    (h : ∀ s, next (place s) = (step s).map place) (s : β) :
    Ends step s ↔ Ends next (place s) := by
  simp only [Ends, walkAt_map h, Option.map_eq_none_iff]

end Lede.Lib.Orbit
