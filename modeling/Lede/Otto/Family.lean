/-
Lede.Otto.Family — the four Realtek switch families that the `rtl83xx` DSA driver serves,
and the sets of ports that it keeps in 64-bit masks.
-/
import Mathlib.Data.Finset.Card

namespace Lede.Otto

/-- The families of the driver. -/
inductive Family where
  | rtl838x
  | rtl839x
  | rtl930x
  | rtl931x
deriving DecidableEq

/-- `struct rtldsa_config`, `cpu_port` -/
def Family.cpuPort : Family → Nat
  | .rtl838x => 28
  | .rtl839x => 52
  | .rtl930x => 28
  | .rtl931x => 56

/-- `struct rtldsa_config`, `num_lag_ids` -/
def Family.numLagIds : Family → Nat
  | .rtl838x => 8
  | .rtl839x => 16
  | .rtl930x => 16
  | .rtl931x => 16

/-- The families that share the `93xx` functions. -/
def Family.is93xx : Family → Bool
  | .rtl838x => false
  | .rtl839x => false
  | .rtl930x => true
  | .rtl931x => true

/-- The size of `priv->ports`. -/
def numPorts : Nat := 57

theorem Family.cpuPort_lt (f : Family) : f.cpuPort < numPorts := by
  cases f <;> decide

/-- A `u64` of ports, as the set of its bits. -/
abbrev PortMask := Finset Nat

def EINVAL : Int := 22
def EOPNOTSUPP : Int := 95
def ENOSPC : Int := 28
def ENOENT : Int := 2
def ENOTSUPP : Int := 524
def EBUSY : Int := 16
def EIO : Int := 5
def EAGAIN : Int := 11

/-- `for_each_set_bit(port, mask, ARRAY_SIZE(priv->ports))` -/
def setBits (m : PortMask) : List Nat := (List.range numPorts).filter (· ∈ m)

/-- `__ffs64`; no bit is the first of the empty mask. -/
def ffs64 (m : PortMask) : Option Nat := (List.range 64).find? (· ∈ m)

@[simp] theorem mem_setBits {m : PortMask} {p : Nat} : p ∈ setBits m ↔ p < numPorts ∧ p ∈ m := by
  simp [setBits]

theorem ffs64_mem {m : PortMask} {p : Nat} (h : ffs64 m = some p) : p ∈ m := by
  simpa using List.find?_some h

theorem ffs64_none {m : PortMask} (hm : ∀ p ∈ m, p < 64) (h : ffs64 m = none) : m = ∅ := by
  rw [Finset.eq_empty_iff_forall_notMem]
  intro p hp
  have := List.find?_eq_none.mp h p (List.mem_range.mpr (hm p hp))
  simp [hp] at this

end Lede.Otto
