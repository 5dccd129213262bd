/-
Lede.Lib.Access — which bytes of a buffer a piece of code touches.

A function of a program is accompanied by the list of the byte ranges it uses,
in order; `Within` says that the list stays inside a buffer of a given size.
-/
import Mathlib.Tactic.Common

namespace Lede.Lib

/-- One use of a buffer: `len` bytes from byte `off` on. -/
structure Access where
  off : Nat
  len : Nat
  deriving DecidableEq, Repr

/-- Every access ends inside a buffer of `n` bytes. -/
def Within (n : Nat) (as : List Access) : Prop := ∀ a ∈ as, a.off + a.len ≤ n

instance (n : Nat) (as : List Access) : Decidable (Within n as) :=
  inferInstanceAs (Decidable (∀ a ∈ as, a.off + a.len ≤ n))

variable {n : Nat}

@[simp] theorem within_nil : Within n [] := by simp [Within]

@[simp] theorem within_cons (a : Access) (as : List Access) :
    Within n (a :: as) ↔ a.off + a.len ≤ n ∧ Within n as := by simp [Within]

@[simp] theorem within_append (as bs : List Access) :
    Within n (as ++ bs) ↔ Within n as ∧ Within n bs := by
  simp only [Within, List.mem_append, or_imp, forall_and]

end Lede.Lib
