/-
Lede.Lib.BigEndian — bit strings in byte memories, most significant bit first.

Network addresses number their bits from the left. `bit m i` is bit `i` of the
bytes at `m`; a big-endian number of `n` bytes (`beNat`, `beBytes`) has the same
bits in the same order, so what shifts and masks do to an address can be said
bit by bit.
-/
import Mathlib.Tactic.Common
import Mathlib.Data.Nat.Bitwise

namespace Lede.Lib

/-- Bit `i` of the bytes at `m`. -/
def bit (m : Nat → UInt8) (i : Nat) : Bool := (m (i / 8)).toNat.testBit (7 - i % 8)

/-- The number in the first `n` bytes at `m`. -/
def beNat (m : Nat → UInt8) : Nat → Nat
  | 0 => 0
  | n + 1 => 2 ^ 8 * beNat m n + (m n).toNat

/-- The `n` bytes of a number. -/
def beBytes (n x : Nat) : Nat → UInt8 := fun i =>
  if i < n then UInt8.ofNat (x / 2 ^ (8 * (n - 1 - i))) else 0

section Bits

variable {m m' : Nat → UInt8}

theorem beNat_lt (m : Nat → UInt8) (n : Nat) : beNat m n < 2 ^ (8 * n) := by
  induction n with
  | zero => simp [beNat]
  | succ n ih =>
    have hb := (m n).toNat_lt
    rw [beNat, Nat.mul_succ, Nat.pow_add, Nat.mul_comm (2 ^ (8 * n))]
    omega

theorem testBit_beNat (m : Nat → UInt8) (n : Nat) {j : Nat} (hj : j < 8 * n) :
    (beNat m n).testBit j = bit m (8 * n - 1 - j) := by
  induction n generalizing j with
  | zero => omega
  | succ n ih =>
    rw [beNat, Nat.testBit_two_pow_mul_add _ (m n).toNat_lt]
    split
    · next hlt =>
      unfold bit
      have hdiv : (8 * (n + 1) - 1 - j) / 8 = n := by omega
      have hmod : 7 - (8 * (n + 1) - 1 - j) % 8 = j := by omega
      rw [hdiv, hmod]
    · next hge =>
      rw [ih (by omega)]
      congr 1
      omega

theorem bit_beBytes {n i : Nat} (x : Nat) (hi : i < 8 * n) :
    bit (beBytes n x) i = x.testBit (8 * n - 1 - i) := by
  have hlt : i / 8 < n := by omega
  unfold bit beBytes
  rw [if_pos hlt, UInt8.toNat_ofNat', Nat.testBit_mod_two_pow, Nat.testBit_div_two_pow]
  have h7 : 7 - i % 8 < 8 := by omega
  have hpos : 7 - i % 8 + 8 * (n - 1 - i / 8) = 8 * n - 1 - i := by omega
  rw [hpos]
  simp [h7]

/-- The bytes of a number are read back as the number. -/
theorem beNat_beBytes {n x : Nat} (hlt : x < 2 ^ (8 * n)) : beNat (beBytes n x) n = x := by
  refine Nat.eq_of_testBit_eq fun j => ?_
  by_cases hj : j < 8 * n
  · have hpos : 8 * n - 1 - (8 * n - 1 - j) = j := by omega
    rw [testBit_beNat _ _ hj, bit_beBytes _ (by omega), hpos]
  · have hpow : 2 ^ (8 * n) ≤ 2 ^ j := Nat.pow_le_pow_right (by omega) (by omega)
    have hnum := beNat_lt (beBytes n x) n
    rw [Nat.testBit_lt_two_pow (by omega), Nat.testBit_lt_two_pow (by omega)]

/-- Bytes put at `lo` over others. -/
theorem bit_window (f g : Nat → UInt8) (lo n i : Nat) :
    bit (fun k => if lo ≤ k ∧ k < lo + n then f (k - lo) else g k) i =
      if 8 * lo ≤ i ∧ i < 8 * (lo + n) then bit f (i - 8 * lo) else bit g i := by
  unfold bit
  dsimp only
  by_cases hin : 8 * lo ≤ i ∧ i < 8 * (lo + n)
  · have hdiv : (i - 8 * lo) / 8 = i / 8 - lo := by omega
    have hmod : (i - 8 * lo) % 8 = i % 8 := by omega
    rw [if_pos hin, if_pos (by omega), hdiv, hmod]
  · rw [if_neg hin, if_neg (by omega)]

theorem bit_zero (i : Nat) : bit (fun _ => 0) i = false := by
  simp [bit]

end Bits

end Lede.Lib
