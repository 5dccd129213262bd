/-
Lede.Lib.Positions — the positions of a list that a member enters or leaves.

A member that enters at `i` sends the position `p` of another one to `opened i p`, a member that
leaves there to `closed i p`. What holds at the front of a list holds at its first positions, as
many as there are members it holds of, and what holds at its back at the last ones.
-/
import Mathlib.Data.List.Basic

namespace Lede.Lib.Positions

variable {α : Type*} {l : List α} {a x y : α} {i p q : Nat}

def opened (i p : Nat) : Nat := if i ≤ p then p + 1 else p

def closed (i p : Nat) : Nat := if i < p then p - 1 else p

theorem lt_of_opened (h : opened i p < opened i q) : p < q := by
  unfold opened at h
  split at h <;> split at h <;> omega

theorem lt_of_closed (h : closed i p < closed i q) : p < q := by
  unfold closed at h
  split at h <;> split at h <;> omega

theorem getElem?_insertIdx_opened (a : α) : (l.insertIdx i a)[opened i p]? = l[p]? := by
  unfold opened
  split
  · rw [List.getElem?_insertIdx_of_gt (by omega), Nat.add_sub_cancel]
  · rw [List.getElem?_insertIdx_of_lt (by omega)]

theorem getElem?_insertIdx (hi : i ≤ l.length) (h : (l.insertIdx i a)[p]? = some x) :
    p = i ∧ x = a ∨ ∃ k, p = opened i k ∧ l[k]? = some x := by
  rcases Nat.lt_trichotomy p i with hlt | rfl | hgt
  · rw [List.getElem?_insertIdx_of_lt hlt] at h
    exact .inr ⟨p, (if_neg (by omega)).symm, h⟩
  · rw [List.getElem?_insertIdx_self, if_pos hi] at h
    exact .inl ⟨rfl, (Option.some.inj h).symm⟩
  · rw [List.getElem?_insertIdx_of_gt hgt] at h
    exact .inr ⟨p - 1, by rw [opened, if_pos (by omega)]; omega, h⟩

theorem getElem?_eraseIdx_closed (h : p ≠ i) : (l.eraseIdx i)[closed i p]? = l[p]? := by
  unfold closed
  split
  · rw [List.getElem?_eraseIdx_of_ge (by omega), Nat.sub_add_cancel (by omega)]
  · rw [List.getElem?_eraseIdx_of_lt (by omega)]

theorem getElem?_eraseIdx (h : (l.eraseIdx i)[p]? = some x) :
    ∃ k, p = closed i k ∧ k ≠ i ∧ l[k]? = some x := by
  rcases Nat.lt_or_ge p i with hlt | hge
  · rw [List.getElem?_eraseIdx_of_lt hlt] at h
    exact ⟨p, (if_neg (by omega)).symm, by omega, h⟩
  · rw [List.getElem?_eraseIdx_of_ge hge] at h
    refine ⟨p + 1, ?_, by omega, h⟩
    rw [closed, if_pos (by omega), Nat.add_sub_cancel]

/-- Whatever `P` holds of is in front of what it does not hold of. -/
def InFront (P : α → Bool) (l : List α) : Prop :=
  ∀ (j k : Nat) (x y : α), l[j]? = some x → l[k]? = some y → j < k → P y = true → P x = true

theorem InFront.iff {P : α → Bool} (h : InFront P l) (hx : l[p]? = some x) :
    P x = true ↔ p < l.countP P := by
  induction l generalizing p with
  | nil => simp at hx
  | cons a l ih =>
    have hl : InFront P l := fun j k x y hj hk hlt =>
      h (j + 1) (k + 1) x y hj hk (Nat.succ_lt_succ hlt)
    cases hpa : P a with
    | true =>
      rw [List.countP_cons_of_pos hpa]
      cases p with
      | zero =>
        obtain rfl : a = x := by simpa using hx
        simp [hpa]
      | succ p =>
        rw [ih hl (by simpa using hx)]
        omega
    | false =>
      -- nothing holds behind a member that it does not hold of
      have hnone : ∀ y ∈ a :: l, ¬P y = true := by
        intro y hy hpy
        obtain ⟨k, hk⟩ := List.mem_iff_getElem?.1 hy
        cases k with
        | zero =>
          obtain rfl : a = y := by simpa using hk
          rw [hpa] at hpy
          cases hpy
        | succ k =>
          have := h 0 (k + 1) a y rfl hk (Nat.succ_pos k) hpy
          rw [hpa] at this
          cases this
      rw [List.countP_eq_zero.2 hnone]
      exact iff_of_false (hnone x (List.mem_of_getElem? hx)) (Nat.not_lt_zero p)

theorem InFront.back_iff {P : α → Bool} (h : InFront (fun x => !P x) l) (hx : l[p]? = some x) :
    P x = true ↔ l.length - l.countP P ≤ p := by
  have hcount : l.length - l.countP P = l.countP fun x => !P x := by
    have hsum := List.length_eq_countP_add_countP P (l := l)
    simp only [Bool.not_eq_true, Bool.decide_eq_false] at hsum
    omega
  have hfront := h.iff hx
  rw [hcount]
  cases hpx : P x with
  | true => simpa [hpx] using hfront
  | false => simpa [hpx] using hfront

end Lede.Lib.Positions
