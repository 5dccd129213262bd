/-
Lede.Lib.Retry — runs that repeat a step until it succeeds.

A run goes on with the next state where an attempt succeeds (`ok n`) and stays where it is
where it does not. If every success makes a measure smaller, the run stops unless it is left
with an attempt that fails for ever (`exists_stopped`); and there it does not stop
(`not_stopped_of_fail`).
-/
import Mathlib.Order.Nat
import Mathlib.Data.Nat.Find
import Mathlib.Tactic.Common

namespace Lede.Lib.Retry

variable {S : Type*} {run : Nat → S} {stopped : S → Prop} {ok : Nat → Prop}

/-- Attempts that fail leave the state as it is. -/
theorem run_eq_of_fail (hstay : ∀ n, ¬ ok n → run (n + 1) = run n) {n k : Nat} (hnk : n ≤ k)
    (hfail : ∀ j, n ≤ j → j < k → ¬ ok j) : run k = run n := by
  induction k, hnk using Nat.le_induction with
  | base => rfl
  | succ k hnk ih =>
    rw [hstay k (hfail k hnk (Nat.lt_succ_self k))]
    exact ih fun j hj hlt => hfail j hj (Nat.lt_succ_of_lt hlt)

/-- The next success finds the state as it is now. -/
theorem exists_next (hstay : ∀ n, ¬ ok n → run (n + 1) = run n) {n k : Nat} (hnk : n ≤ k) (hk : ok k) :
    ∃ j, n ≤ j ∧ ok j ∧ run j = run n := by
  classical
  have hex : ∃ j, n ≤ j ∧ ok j := ⟨k, hnk, hk⟩
  obtain ⟨hle, hok⟩ := Nat.find_spec hex
  exact ⟨Nat.find hex, hle, hok,
    run_eq_of_fail hstay hle fun j hj hlt h => Nat.find_min hex hlt ⟨hj, h⟩⟩

/-- A run whose successes make a measure smaller stops, if no attempt fails for ever. -/
theorem exists_stopped (μ : S → Nat) (hstay : ∀ n, ¬ ok n → run (n + 1) = run n)
    (hstep : ∀ n, ¬ stopped (run n) → ok n → stopped (run (n + 1)) ∨ μ (run (n + 1)) < μ (run n))
    (hretry : ∀ n, ¬ stopped (run n) → ∃ k, n ≤ k ∧ ok k) : ∃ n, stopped (run n) := by
  suffices h : ∀ b n, μ (run n) = b → ∃ k, stopped (run k) from h _ 0 rfl
  intro b
  induction b using Nat.strong_induction_on with
  | _ b ih =>
    rintro n rfl
    by_cases hn : stopped (run n)
    · exact ⟨n, hn⟩
    · obtain ⟨k, hnk, hk⟩ := hretry n hn
      obtain ⟨j, -, hj, hsame⟩ := exists_next hstay hnk hk
      rcases hstep j (by rwa [hsame]) hj with h | h
      · exact ⟨j + 1, h⟩
      · rw [hsame] at h
        exact ih _ h (j + 1) rfl

/-- A run with an attempt that fails for ever does not stop. -/
theorem not_stopped_of_fail (hstay : ∀ n, ¬ ok n → run (n + 1) = run n) {n : Nat}
    (hfail : ∀ k, n ≤ k → ¬ ok k) (hn : ¬ stopped (run n)) {k : Nat} (hnk : n ≤ k) :
    ¬ stopped (run k) := by
  rwa [run_eq_of_fail hstay hnk fun j hj _ => hfail j hj]

end Lede.Lib.Retry
