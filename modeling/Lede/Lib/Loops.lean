/-
Lede.Lib.Loops — loops that end.

A `while` of a C function is a relation here: `body s (.inl s')` is an iteration that takes `s`
to `s'`, `body s (.inr r)` one that leaves the loop with `r`. A derivation of `Leaves body s r` is
a finite run, so a loop that leaves from every state is one that ends. Where a measure goes down
with every iteration there is exactly one such run (`existsUnique_leaves`), and a function that
agrees with the body is its result (`leaves_iff`).
-/
import Mathlib.Data.Set.Basic

namespace Lede.Lib.Loops

variable {S R : Type*}

/-- The loop leaves from `s` with `r`. -/
inductive Leaves (body : S → S ⊕ R → Prop) : S → R → Prop where
  | leave {s : S} {r : R} (h : body s (.inr r)) : Leaves body s r
  | again {s s' : S} {r : R} (h : body s (.inl s')) (rest : Leaves body s' r) : Leaves body s r

variable {body : S → S ⊕ R → Prop} {s : S}

/-- A loop whose body does one thing leaves when the body does, and goes on when it does. -/
theorem leaves_of_inr {r : R} (hbody : ∀ x, body s x ↔ x = .inr r) (r' : R) :
    Leaves body s r' ↔ r' = r := by
  constructor
  · intro h
    cases h with
    | leave h => exact Sum.inr.inj ((hbody _).1 h)
    | again h rest => cases (hbody _).1 h
  · rintro rfl
    exact .leave ((hbody _).2 rfl)

theorem leaves_of_inl {t : S} (hbody : ∀ x, body s x ↔ x = .inl t) (r : R) :
    Leaves body s r ↔ Leaves body t r := by
  constructor
  · intro h
    cases h with
    | leave h => cases (hbody _).1 h
    | again h rest =>
      cases (hbody _).1 h
      exact rest
  · exact .again ((hbody _).2 rfl)

/-- A loop with a measure that goes down leaves, with one result. -/
theorem existsUnique_leaves (step : S → S ⊕ R) (Inv : S → Prop) (μ : S → Nat)
    (hbody : ∀ s, Inv s → ∀ x, body s x ↔ x = step s)
    (hagain : ∀ s s', Inv s → step s = .inl s' → Inv s' ∧ μ s' < μ s) (hs : Inv s) :
    ∃! r, Leaves body s r := by
  induction hn : μ s using Nat.strongRecOn generalizing s with
  | _ n ih =>
    cases hstep : step s with
    | inl s' =>
      obtain ⟨hs', hlt⟩ := hagain s s' hs hstep
      obtain ⟨r, hr, huniq⟩ := ih (μ s') (hn ▸ hlt) hs' rfl
      have hiff := leaves_of_inl (s := s) fun x => hstep ▸ hbody s hs x
      exact ⟨r, (hiff r).2 hr, fun r' hr' => huniq r' ((hiff r').1 hr')⟩
    | inr r =>
      have hiff := leaves_of_inr (s := s) fun x => hstep ▸ hbody s hs x
      exact ⟨r, (hiff r).2 rfl, fun r' hr' => (hiff r').1 hr'⟩

/-- And a function that follows the body is that result. -/
theorem leaves_iff (step : S → S ⊕ R) (Inv : S → Prop) (μ : S → Nat) (f : S → R)
    (hbody : ∀ s, Inv s → ∀ x, body s x ↔ x = step s)
    (hleave : ∀ s r, Inv s → step s = .inr r → f s = r)
    (hagain : ∀ s s', Inv s → step s = .inl s' → Inv s' ∧ μ s' < μ s ∧ f s = f s') (hs : Inv s)
    (r : R) : Leaves body s r ↔ r = f s := by
  induction hn : μ s using Nat.strongRecOn generalizing s with
  | _ n ih =>
    cases hstep : step s with
    | inl s' =>
      obtain ⟨hs', hlt, hf⟩ := hagain s s' hs hstep
      rw [leaves_of_inl (fun x => hstep ▸ hbody s hs x), hf]
      exact ih (μ s') (hn ▸ hlt) hs' rfl
    | inr r' =>
      rw [leaves_of_inr (fun x => hstep ▸ hbody s hs x), hleave s r' hs hstep]

end Lede.Lib.Loops
