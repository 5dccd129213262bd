/-
Lede.Lib.Runs — what holds at every call of a run.

A run is a list of calls, each of which takes the state on. `Along step P s calls` says that `P`
holds at every call in the state it is made in. Where a condition keeps an invariant and under the
invariant is the same as `P` at one call, it is the same as `P` along the whole run (`along_iff`).
-/
import Mathlib.Data.List.Basic

namespace Lede.Lib.Runs

variable {S C : Type*}

/-- `P` holds at every call of the run from `s`, in the state before the call. -/
def Along (step : S → C → S) (P : S → C → Prop) (s : S) (calls : List C) : Prop :=
  ∀ pre c post, calls = pre ++ c :: post → P (pre.foldl step s) c

variable {step : S → C → S} {P Q : S → C → Prop} {s : S} {c : C} {calls : List C}

@[simp] theorem along_nil : Along step P s [] := by
  intro pre c post h
  simp at h

@[simp] theorem along_cons :
    Along step P s (c :: calls) ↔ P s c ∧ Along step P (step s c) calls := by
  constructor
  · intro h
    refine ⟨h [] c calls rfl, fun pre d post heq => ?_⟩
    exact h (c :: pre) d post (by rw [heq, List.cons_append])
  · rintro ⟨hc, h⟩ pre d post heq
    cases pre with
    | nil =>
      obtain ⟨rfl, -⟩ : c = d ∧ calls = post := by simpa using heq
      exact hc
    | cons b pre =>
      obtain ⟨rfl, htail⟩ : c = b ∧ calls = pre ++ d :: post := by simpa using heq
      exact h pre d post htail

/-- An invariant that every call keeps under a condition holds at the end of the run. -/
theorem inv_of_along (Inv : S → Prop) (hkeep : ∀ s c, Inv s → Q s c → Inv (step s c))
    (hs : Inv s) (h : Along step Q s calls) : Inv (calls.foldl step s) := by
  induction calls generalizing s with
  | nil => exact hs
  | cons c calls ih =>
    rw [along_cons] at h
    exact ih (hkeep s c hs h.1) h.2

/-- Under an invariant that the condition keeps, what is the same at one call is the same along
the run. -/
theorem along_iff (Inv : S → Prop) (hkeep : ∀ s c, Inv s → Q s c → Inv (step s c))
    (hiff : ∀ s c, Inv s → (P s c ↔ Q s c)) (hs : Inv s) :
    Along step P s calls ↔ Along step Q s calls := by
  induction calls generalizing s with
  | nil => simp
  | cons c calls ih =>
    rw [along_cons, along_cons, hiff s c hs]
    exact and_congr_right fun hq => ih (hkeep s c hs hq)

end Lede.Lib.Runs
