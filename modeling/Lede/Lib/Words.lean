/-
Lede.Lib.Words — arrays of 32-bit words: as the home of small fields, as bytes
in memory, and under a CRC.

A word array is a function from indices to `BitVec 32`, without an end, like
the byte memories of `Lede.Lib.Bytes`. `putWords` and `getWord` are `memcpy`
out of and into such an array on a little-endian machine. The CRC is the
reflected CRC-32 without inversion, one byte at a time, so that a checksum over
two pieces is the checksum over the whole (`crc32Le_append`).
-/
import Lede.Lib.Bytes

namespace Lede.Lib

/-! ## Two-bit fields -/

section Field

variable (t : Nat → BitVec 32)

/-- The two-bit field at index `i`, sixteen to a word. -/
def field (i : Nat) : BitVec 32 := (t (i / 16) >>> (i % 16 * 2)) &&& 3#32

/-- Store the two low bits of `v` in the field at index `i`. -/
def setField (i : Nat) (v : BitVec 32) : Nat → BitVec 32 := fun u =>
  if u = i / 16 then
    (t u &&& ~~~(3#32 <<< (i % 16 * 2))) ||| ((v &&& 3#32) <<< (i % 16 * 2))
  else t u

theorem getLsbD_three (j : Nat) : (3#32).getLsbD j = decide (j < 2) := by
  match j with
  | 0 => rfl
  | 1 => rfl
  | j + 2 =>
    have h : ¬ j + 2 < 2 := by omega
    rw [decide_eq_false h, BitVec.getLsbD_ofNat]
    simp only [Bool.and_eq_false_iff]
    right
    exact Nat.testBit_lt_two_pow (Nat.lt_of_lt_of_le (by decide : 3 < 2 ^ 2)
      (Nat.pow_le_pow_right (by decide) (by omega)))

theorem field_setField_self (i : Nat) (v : BitVec 32) : field (setField t i v) i = v &&& 3#32 := by
  have hs : i % 16 * 2 + 1 < 32 := by omega
  apply BitVec.eq_of_getLsbD_eq
  intro j hj
  unfold field setField
  rw [if_pos rfl]
  simp only [BitVec.getLsbD_and, BitVec.getLsbD_or, BitVec.getLsbD_ushiftRight, BitVec.getLsbD_not,
    BitVec.getLsbD_shiftLeft, getLsbD_three]
  by_cases h2 : j < 2
  · have hlt : i % 16 * 2 + j < 32 := by omega
    have hge : ¬ i % 16 * 2 + j < i % 16 * 2 := by omega
    simp [h2, hlt, hge]
  · simp [h2]

theorem field_setField_of_ne {i i' : Nat} (h : i' ≠ i) (v : BitVec 32) :
    field (setField t i v) i' = field t i' := by
  unfold field setField
  by_cases hu : i' / 16 = i / 16
  · rw [if_pos hu]
    apply BitVec.eq_of_getLsbD_eq
    intro j hj
    simp only [BitVec.getLsbD_and, BitVec.getLsbD_or, BitVec.getLsbD_ushiftRight,
      BitVec.getLsbD_not, BitVec.getLsbD_shiftLeft, getLsbD_three]
    by_cases h2 : j < 2
    · -- the fields of one word do not overlap
      have hm : i' % 16 ≠ i % 16 := by omega
      have hlt : i' % 16 * 2 + j < 32 := by omega
      rcases Nat.lt_or_ge (i' % 16) (i % 16) with hl | hg
      · have : i' % 16 * 2 + j < i % 16 * 2 := by omega
        simp [h2, hlt, this]
      · have h₁ : ¬ i' % 16 * 2 + j < i % 16 * 2 := by omega
        have h₂ : ¬ i' % 16 * 2 + j - i % 16 * 2 < 2 := by omega
        simp [h2, hlt, h₁, h₂]
    · simp [h2]
  · rw [if_neg hu]

theorem field_setField (i i' : Nat) (v : BitVec 32) :
    field (setField t i v) i' = if i' = i then v &&& 3#32 else field t i' := by
  split
  · next h => rw [h, field_setField_self]
  · next h => exact field_setField_of_ne t h v

end Field

/-! ## Words in memory -/

/-- Store a 32-bit word. -/
def put32 (m : Nat → UInt8) (o v : Nat) : Nat → UInt8 := fun a =>
  if o ≤ a ∧ a < o + 4 then leByte v (a - o) else m a

theorem put32_of_not_mem (m : Nat → UInt8) {o a : Nat} (v : Nat) (h : ¬ (o ≤ a ∧ a < o + 4)) :
    put32 m o v a = m a := if_neg h

theorem get32_put32_self (m : Nat → UInt8) (o v : Nat) : get32 (put32 m o v) o = v % 2 ^ 32 := by
  apply get32_of_bytes
  intro i hi
  rw [put32, if_pos ⟨by omega, by omega⟩, Nat.add_sub_cancel_left]

theorem get32_put32_of_disjoint (m : Nat → UInt8) {o o' : Nat} (v : Nat)
    (h : o' + 4 ≤ o ∨ o + 4 ≤ o') : get32 (put32 m o v) o' = get32 m o' := by
  apply get32_congr
  intro i hi
  exact put32_of_not_mem m v (by omega)

/-- `memcpy` of `n` words to address `o`. -/
def putWords (m : Nat → UInt8) (o n : Nat) (f : Nat → BitVec 32) : Nat → UInt8 := fun a =>
  if o ≤ a ∧ a < o + 4 * n then leByte (f ((a - o) / 4)).toNat ((a - o) % 4) else m a

/-- The word array that begins at address `o`. -/
def getWord (m : Nat → UInt8) (o i : Nat) : BitVec 32 := BitVec.ofNat 32 (get32 m (o + 4 * i))

theorem putWords_of_not_mem (m : Nat → UInt8) {o n a : Nat} (f : Nat → BitVec 32)
    (h : ¬ (o ≤ a ∧ a < o + 4 * n)) : putWords m o n f a = m a := if_neg h

theorem getWord_putWords_self (m : Nat → UInt8) (o : Nat) {n i : Nat} (f : Nat → BitVec 32)
    (hi : i < n) : getWord (putWords m o n f) o i = f i := by
  have hbytes : ∀ j < 4, putWords m o n f (o + 4 * i + j) = leByte (f i).toNat j := by
    intro j hj
    rw [putWords, if_pos ⟨by omega, by omega⟩, show o + 4 * i + j - o = j + 4 * i by omega,
      Nat.add_mul_div_left j i (by decide), Nat.div_eq_of_lt hj, Nat.zero_add,
      Nat.add_mul_mod_self_left, Nat.mod_eq_of_lt hj]
  rw [getWord, get32_of_bytes hbytes, Nat.mod_eq_of_lt (f i).isLt, BitVec.ofNat_toNat,
    BitVec.setWidth_eq]

theorem getWord_congr {m m' : Nat → UInt8} {o i : Nat}
    (h : ∀ j < 4, m (o + 4 * i + j) = m' (o + 4 * i + j)) : getWord m o i = getWord m' o i := by
  rw [getWord, getWord, get32_congr h]

/-! ## The CRC -/

/-- One bit of the reflected CRC-32. -/
def crcBit (c : BitVec 32) : BitVec 32 :=
  if c.getLsbD 0 then (c >>> 1) ^^^ 0xEDB88320#32 else c >>> 1

/-- One byte. -/
def crcByte (c : BitVec 32) (b : UInt8) : BitVec 32 :=
  Nat.iterate crcBit 8 (c ^^^ b.toBitVec.setWidth 32)

/-- `crc32_le` over the `n` bytes at address `o`. -/
def crc32Le (crc : BitVec 32) (m : Nat → UInt8) (o n : Nat) : BitVec 32 :=
  (List.range n).foldl (fun c i => crcByte c (m (o + i))) crc

theorem crc32Le_congr (crc : BitVec 32) {m m' : Nat → UInt8} {o n : Nat}
    (h : ∀ i < n, m (o + i) = m' (o + i)) : crc32Le crc m o n = crc32Le crc m' o n := by
  unfold crc32Le
  induction n with
  | zero => rfl
  | succ n ih =>
    rw [List.range_succ, List.foldl_append, List.foldl_append, ih fun i hi => h i (by omega),
      List.foldl_cons, List.foldl_cons, h n (by omega)]
    rfl

/-- A checksum over two pieces in a row. -/
theorem crc32Le_append (crc : BitVec 32) (m : Nat → UInt8) (o n k : Nat) :
    crc32Le (crc32Le crc m o n) m (o + n) k = crc32Le crc m o (n + k) := by
  induction k with
  | zero => rfl
  | succ k ih =>
    unfold crc32Le at ih ⊢
    rw [← Nat.add_assoc, List.range_succ, List.range_succ, List.foldl_append, List.foldl_append, ih,
      List.foldl_cons, List.foldl_cons, Nat.add_assoc]
    rfl

end Lede.Lib
