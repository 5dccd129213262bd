/-
Lede.Lib.Bytes — little-endian words in a byte memory.

A memory is a function from addresses to bytes; nothing bounds it, so an
access behind a buffer reads whatever the memory holds there.
-/
import Mathlib.Tactic.Common
import Mathlib.Tactic.IntervalCases

namespace Lede.Lib

/-- Byte `i` of the little-endian form of `v`. -/
def leByte (v i : Nat) : UInt8 := UInt8.ofNat (v / 256 ^ i % 256)

theorem leByte_toNat (v i : Nat) : (leByte v i).toNat = v / 256 ^ i % 256 := by
  rw [leByte, UInt8.toNat_ofNat']
  omega

section Get

variable (m : Nat → UInt8) (o : Nat)

/-- The 16-bit word at address `o`. -/
def get16 : Nat := (m o).toNat + 256 * (m (o + 1)).toNat

/-- The 32-bit word at address `o`. -/
def get32 : Nat := get16 m o + 65536 * get16 m (o + 2)

theorem get16_lt : get16 m o < 65536 := by
  have h₀ := (m o).toNat_lt
  have h₁ := (m (o + 1)).toNat_lt
  unfold get16
  omega

theorem get32_lt : get32 m o < 2 ^ 32 := by
  have h₀ := get16_lt m o
  have h₁ := get16_lt m (o + 2)
  unfold get32
  omega

end Get

/-- A word whose bytes lie in memory is read back. -/
theorem get16_of_bytes {m : Nat → UInt8} {o v : Nat} (h : ∀ i < 2, m (o + i) = leByte v i) :
    get16 m o = v % 65536 := by
  have h₀ := h 0 (by decide)
  have h₁ := h 1 (by decide)
  rw [Nat.add_zero] at h₀
  rw [get16, h₀, h₁, leByte_toNat, leByte_toNat]
  omega

theorem get32_of_bytes {m : Nat → UInt8} {o v : Nat} (h : ∀ i < 4, m (o + i) = leByte v i) :
    get32 m o = v % 2 ^ 32 := by
  have hlo : get16 m o = v % 65536 := get16_of_bytes fun i hi => h i (by omega)
  have hhi : get16 m (o + 2) = (v / 65536) % 65536 := by
    apply get16_of_bytes
    intro i hi
    rw [Nat.add_assoc, h (2 + i) (by omega)]
    unfold leByte
    rw [Nat.div_div_eq_div_mul, Nat.pow_add]
  rw [get32, hlo, hhi]
  omega

/-- Equal bytes give equal words. -/
theorem get16_congr {m m' : Nat → UInt8} {o : Nat} (h : ∀ i < 2, m (o + i) = m' (o + i)) :
    get16 m o = get16 m' o := by
  have h₀ := h 0 (by decide)
  have h₁ := h 1 (by decide)
  rw [Nat.add_zero] at h₀
  rw [get16, get16, h₀, h₁]

theorem get32_congr {m m' : Nat → UInt8} {o : Nat} (h : ∀ i < 4, m (o + i) = m' (o + i)) :
    get32 m o = get32 m' o := by
  have hlo : get16 m o = get16 m' o := get16_congr fun i hi => h i (by omega)
  have hhi : get16 m (o + 2) = get16 m' (o + 2) := by
    apply get16_congr
    intro i hi
    rw [Nat.add_assoc]
    exact h (2 + i) (by omega)
  rw [get32, get32, hlo, hhi]

/-- Store a 16-bit word. -/
def set16 (m : Nat → UInt8) (o v : Nat) : Nat → UInt8 := fun a =>
  if a = o then leByte v 0 else if a = o + 1 then leByte v 1 else m a

theorem get16_set16_self (m : Nat → UInt8) (o v : Nat) : get16 (set16 m o v) o = v % 65536 := by
  apply get16_of_bytes
  intro i hi
  interval_cases i <;> simp [set16]

theorem get16_set16_of_disjoint (m : Nat → UInt8) {o o' : Nat} (v : Nat)
    (h : o' + 1 < o ∨ o + 1 < o') : get16 (set16 m o v) o' = get16 m o' := by
  apply get16_congr
  intro i hi
  have h₁ : o' + i ≠ o := by omega
  have h₂ : o' + i ≠ o + 1 := by omega
  simp [set16, h₁, h₂]

end Lede.Lib
