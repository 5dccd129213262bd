/-
Lede.Lib.BitField — fields of 32-bit hardware words.

A driver packs a record into words with shifts, masks and ors, and reads it back with shifts
and masks. A statement about one field is a statement about the bits of the word: `flag` and
`low` come with their bits, and a value below `2 ^ w` has no bit from `w` on.
-/
import Mathlib.Data.Nat.Bitwise

namespace Lede.Lib.BitField

/-- `b ? BIT(n) : 0` -/
def flag (n : Nat) (b : Bool) : BitVec 32 := if b then BitVec.twoPow 32 n else 0

/-- The mask of the `w` low bits. -/
def low {n : Nat} (w : Nat) : BitVec n := BitVec.ofNat n (2 ^ w - 1)

@[simp, grind =] theorem getLsbD_flag (n : Nat) (b : Bool) (i : Nat) :
    (flag n b).getLsbD i = (decide (i < 32) && decide (i = n) && b) := by
  unfold flag
  cases b with
  | false => simp
  | true => grind

@[simp] theorem flag_false (n : Nat) : flag n false = 0#32 := rfl

@[simp, grind =] theorem getLsbD_low (n w i : Nat) :
    (low w : BitVec n).getLsbD i = (decide (i < n) && decide (i < w)) := by
  simp only [low, BitVec.getLsbD_ofNat, Nat.testBit_two_pow_sub_one]

@[simp, grind =] theorem getElem_flag (n : Nat) (b : Bool) (i : Nat) (hi : i < 32) :
    (flag n b)[i] = (decide (i = n) && b) := by
  rw [← BitVec.getLsbD_eq_getElem, getLsbD_flag]
  simp [hi]

@[simp, grind =] theorem getElem_low (n w i : Nat) (hi : i < n) :
    (low w : BitVec n)[i] = decide (i < w) := by
  rw [← BitVec.getLsbD_eq_getElem, getLsbD_low]
  simp [hi]

/-- A value that fits `w` bits has no other bits. -/
theorem getLsbD_eq_false {n w : Nat} {x : BitVec n} (h : x.toNat < 2 ^ w) (j : Nat) (hj : w ≤ j) :
    x.getLsbD j = false := by
  rw [BitVec.getLsbD]
  exact Nat.testBit_lt_two_pow (lt_of_lt_of_le h (Nat.pow_le_pow_right Nat.two_pos hj))

/-- And the other way round. -/
theorem toNat_lt_of_getLsbD {n w : Nat} {x : BitVec n} (h : ∀ i, w ≤ i → x.getLsbD i = false) :
    x.toNat < 2 ^ w :=
  Nat.lt_pow_two_of_testBit _ h

theorem getElem_eq_false {n w : Nat} {x : BitVec n} (h : x.toNat < 2 ^ w) (j : Nat) (hj : w ≤ j)
    (hn : j < n) : x[j] = false := by
  rw [← BitVec.getLsbD_eq_getElem]
  exact getLsbD_eq_false h j hj

/-- A word that shares a bit with a mask is not cleared by it. -/
theorem and_ne_zero {n : Nat} {x m : BitVec n} (i : Nat) (hx : x.getLsbD i = true)
    (hm : m.getLsbD i = true) : (x &&& m == 0) = false := by
  rw [beq_eq_false_iff_ne]
  intro h
  have := congrArg (fun y => BitVec.getLsbD y i) h
  simp [hx, hm] at this

/-- A value that is not 0 has a bit. -/
theorem exists_getLsbD {n : Nat} {x : BitVec n} (h : x.toNat ≠ 0) : ∃ i, x.getLsbD i = true := by
  by_contra hn
  push Not at hn
  apply h
  have hx : x = 0 := BitVec.eq_of_getLsbD_eq fun i _ => by simpa using hn i
  simp [hx]

/-- A field that is written is read back. -/
theorem readField_writeField {n k b : Nat} (w : BitVec n) {x : BitVec n} (hx : x.toNat < 2 ^ k)
    (hb : b + k ≤ n) : (w &&& ~~~(low k <<< b) ||| x <<< b) >>> b &&& low k = x := by
  have hbits := getLsbD_eq_false hx
  apply BitVec.eq_of_getLsbD_eq
  intro i hi
  by_cases hik : i < k
  · have hin : b + i < n := by omega
    have hge : ¬ b + i < b := by omega
    simp [hi, hik, hin, hge]
  · simp [hik, hbits i (by omega)]

/-- And leaves the other fields as they were. -/
theorem readField_writeField_of_disjoint {n k b c : Nat} (w : BitVec n) {x : BitVec n}
    (hx : x.toNat < 2 ^ k) (h : b + k ≤ c ∨ c + k ≤ b) :
    (w &&& ~~~(low k <<< b) ||| x <<< b) >>> c &&& low k = w >>> c &&& low k := by
  have hbits := getLsbD_eq_false hx
  apply BitVec.eq_of_getLsbD_eq
  intro i hi
  by_cases hik : i < k
  · by_cases hlt : c + i < n
    · by_cases hb : c + i < b
      · simp [hi, hik, hlt, hb]
      · have hout : ¬ c + i - b < k := by omega
        have hzero := hbits (c + i - b) (by omega)
        rw [BitVec.getLsbD_eq_getElem (by omega)] at hzero
        simp [hi, hik, hlt, hb, hout, hzero]
    · simp [hi, hik, hlt, BitVec.getLsbD_of_ge w (c + i) (by omega)]
  · simp [hik]

/-! ## Words that are made with ors

A driver builds a word from parts, each in bits of its own. A part that lies outside the
field that is read gives 0, and the part that was put there comes back. -/

theorem field_or {n : Nat} (a b : BitVec n) (p w : Nat) :
    (a ||| b) >>> p &&& low w = (a >>> p &&& low w) ||| (b >>> p &&& low w) := by
  rw [BitVec.ushiftRight_or_distrib, BitVec.and_comm, BitVec.and_or_distrib_left, BitVec.and_comm,
    BitVec.and_comm (low w)]

theorem low_or {n : Nat} (a b : BitVec n) (w : Nat) :
    (a ||| b) &&& low w = (a &&& low w) ||| (b &&& low w) := by
  rw [BitVec.and_comm, BitVec.and_or_distrib_left, BitVec.and_comm, BitVec.and_comm (low w)]

theorem flag_shiftLeft (m k : Nat) (b : Bool) : flag m b <<< k = flag (m + k) b := by
  apply BitVec.eq_of_getLsbD_eq
  intro i hi
  simp
  grind

theorem field_flag {m p w : Nat} (b : Bool) (h : m < p ∨ p + w ≤ m) :
    flag m b >>> p &&& low w = 0#32 := by
  apply BitVec.eq_of_getLsbD_eq
  intro i hi
  simp
  omega

theorem low_flag {m w : Nat} (b : Bool) (h : w ≤ m) : flag m b &&& low w = 0#32 := by
  apply BitVec.eq_of_getLsbD_eq
  intro i hi
  simp
  omega

theorem flag_low {m w : Nat} (b : Bool) (h : m < w) : flag m b &&& low w = flag m b := by
  apply BitVec.eq_of_getLsbD_eq
  intro i hi
  simp
  grind

theorem low_low_of_le {n k w : Nat} (x : BitVec n) (h : k ≤ w) :
    x &&& low k &&& low w = x &&& low k := by
  apply BitVec.eq_of_getLsbD_eq
  intro i hi
  simp
  omega

theorem low_low_of_ge {n k w : Nat} (x : BitVec n) (h : w ≤ k) :
    x &&& low k &&& low w = x &&& low w := by
  apply BitVec.eq_of_getLsbD_eq
  intro i hi
  have : i < w → i < k := fun hw => by omega
  simp [hi]
  grind

theorem shiftLeft_low {n q k w : Nat} (x : BitVec n) (h : q + k ≤ w) :
    (x &&& low k) <<< q &&& low w = (x &&& low k) <<< q := by
  apply BitVec.eq_of_getLsbD_eq
  intro i hi
  simp
  grind

theorem low_shiftLeft {n q w : Nat} (x : BitVec n) (h : w ≤ q) : x <<< q &&& low w = 0#n := by
  apply BitVec.eq_of_getLsbD_eq
  intro i hi
  simp
  omega

/-- The field that was written. -/
theorem field_self {n p w : Nat} (x : BitVec n) (h : p + w ≤ n) :
    x <<< p >>> p &&& low w = x &&& low w := by
  apply BitVec.eq_of_getLsbD_eq
  intro i hi
  simp
  grind

theorem field_low_of_disjoint {n p q k w : Nat} (x : BitVec n) (h : q + k ≤ p ∨ p + w ≤ q) :
    (x &&& low k) <<< q >>> p &&& low w = 0#n := by
  apply BitVec.eq_of_getLsbD_eq
  intro i hi
  simp
  omega

theorem field_setWidth_of_disjoint {m n p q w : Nat} (x : BitVec m) (h : q + m ≤ p ∨ p + w ≤ q) :
    x.setWidth n <<< q >>> p &&& low w = 0#n := by
  apply BitVec.eq_of_getLsbD_eq
  intro i hi
  rcases h with h | h
  · have : m ≤ p + i - q := by omega
    simp [BitVec.getLsbD_of_ge x _ this]
  · simp
    omega

theorem field_shiftLeft {n p q w : Nat} (x : BitVec n) (h : p + w ≤ q) :
    x <<< q >>> p &&& low w = 0#n := by
  apply BitVec.eq_of_getLsbD_eq
  intro i hi
  simp
  omega

theorem ushiftRight_low {n k p : Nat} (x : BitVec n) (h : k ≤ p) : (x &&& low k) >>> p = 0#n := by
  apply BitVec.eq_of_getLsbD_eq
  intro i hi
  simp
  omega

/-- A value that fits `k` bits is not cut by a mask. -/
theorem low_of_lt {n k : Nat} {x : BitVec n} (h : x.toNat < 2 ^ k) : x &&& low k = x := by
  have hbits := getLsbD_eq_false h
  apply BitVec.eq_of_getLsbD_eq
  intro i hi
  by_cases hik : i < k
  · simp [hi, hik]
  · simp [hik, hbits i (Nat.le_of_not_lt hik)]

theorem setWidth_low {m n k : Nat} {x : BitVec m} (h : x.toNat < 2 ^ k) :
    x.setWidth n = x.setWidth n &&& low k := by
  have hbits := getLsbD_eq_false h
  apply BitVec.eq_of_getLsbD_eq
  intro i hi
  by_cases hik : i < k
  · simp [hi, hik]
  · simp [hik, hbits i (Nat.le_of_not_lt hik)]

theorem setWidth_and_low {m n w : Nat} (x : BitVec n) :
    x.setWidth m &&& low w = (x &&& low w).setWidth m := by
  apply BitVec.eq_of_getLsbD_eq
  intro i hi
  by_cases hin : i < n
  · simp [hi, hin]
  · simp [hi, BitVec.getLsbD_of_ge x i (Nat.le_of_not_lt hin)]

theorem setWidth_setWidth_low {m n : Nat} (x : BitVec m) (k : Nat) (hmn : m ≤ n) :
    (x.setWidth n &&& low k).setWidth m = x &&& low k := by
  apply BitVec.eq_of_getLsbD_eq
  intro i hi
  have hin : i < n := by omega
  simp [hi, hin]

/-- A value comes back from a wider word. -/
theorem setWidth_low_setWidth {m n k : Nat} {x : BitVec m} (h : x.toNat < 2 ^ k) (hmn : m ≤ n) :
    (x.setWidth n &&& low k).setWidth m = x := by
  rw [setWidth_setWidth_low x k hmn, low_of_lt h]

/-! Bytes -/

theorem byte_self {n k p : Nat} (x : BitVec k) (h : p + k ≤ n) :
    (x.setWidth n <<< p >>> p).setWidth k = x := by
  apply BitVec.eq_of_getLsbD_eq
  intro i hi
  have h₁ : p + i < n := by omega
  have h₂ : i < n := by omega
  simp [hi, h₁, h₂]

theorem byte_setWidth {m n k p : Nat} (x : BitVec m) (h : p + k ≤ n) :
    (x.setWidth n >>> p).setWidth k = (x >>> p).setWidth k := by
  apply BitVec.eq_of_getLsbD_eq
  intro i hi
  have : p + i < n := by omega
  simp [this]

theorem byte_of_disjoint {m n k p q : Nat} (x : BitVec m) (h : q + m ≤ p ∨ p + k ≤ q) :
    (x.setWidth n <<< q >>> p).setWidth k = 0#k := by
  apply BitVec.eq_of_getLsbD_eq
  intro i hi
  rcases h with h | h
  · have : m ≤ p + i - q := by omega
    simp [BitVec.getLsbD_of_ge x _ this]
  · have : p + i < q := by omega
    simp [this]

theorem byte_shiftLeft {n k p q : Nat} (x : BitVec n) (h : p + k ≤ q) :
    (x <<< q >>> p).setWidth k = 0#k := by
  apply BitVec.eq_of_getLsbD_eq
  intro i hi
  have : p + i < q := by omega
  simp [this]

theorem byte_zero_of_shiftLeft {n k q : Nat} (x : BitVec n) (h : k ≤ q) :
    (x <<< q).setWidth k = 0#k := by
  apply BitVec.eq_of_getLsbD_eq
  intro i hi
  have : i < q := by omega
  simp [this]

theorem byte_flag {m p k : Nat} (b : Bool) (h : m < p ∨ p + k ≤ m) :
    (flag m b >>> p).setWidth k = 0#k := by
  apply BitVec.eq_of_getLsbD_eq
  intro i hi
  simp
  omega

theorem byte_zero_flag {m k : Nat} (b : Bool) (h : k ≤ m) : (flag m b).setWidth k = 0#k := by
  apply BitVec.eq_of_getLsbD_eq
  intro i hi
  simp
  omega

theorem byte_zero_of_low {n k p q w : Nat} (x : BitVec n) (h : q + w ≤ p ∨ p + k ≤ q) :
    ((x &&& low w) <<< q >>> p).setWidth k = 0#k := by
  apply BitVec.eq_of_getLsbD_eq
  intro i hi
  simp
  omega

theorem ushiftRight_setWidth {m n p : Nat} (x : BitVec m) (h : m ≤ p) : x.setWidth n >>> p = 0#n := by
  apply BitVec.eq_of_getLsbD_eq
  intro i hi
  simp [BitVec.getLsbD_of_ge x (p + i) (by omega)]

end Lede.Lib.BitField
