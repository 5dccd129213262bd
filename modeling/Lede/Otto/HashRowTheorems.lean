/-
Lede.Otto.HashRowTheorems — the rows of a bucket, as they are read and as they are written (`l2.c`).

A row is read by a key and a position, and written by the index that was handed out for them, split
in two again (`writeIndex`). On the RTL93xx the lower half of a key names a bucket in the lower half
of the table and the upper half of it one in the upper half, so no row is in both.
-/
import Lede.Otto.L2TableTheorems

namespace Lede.Otto

open Lede.Lib.BitField

/-- The rows of `RTL8380_TBL_L2_UC`, `RTL8390_TBL_L2_UC`, … (`otto_table.c`) -/
def Family.l2Rows : Family → Nat
  | .rtl838x => 8192
  | .rtl839x => 16384
  | .rtl930x => 16384
  | .rtl931x => 32768

/-- The row that `write_l2_entry_using_hash` of any family writes. -/
def writeIndex (hash pos : BitVec 32) : Nat := (hash <<< 2 ||| pos).toNat

/-- An index is put together again from its two parts. -/
theorem writeIndex_split (idx : BitVec 32) : writeIndex (idx >>> 2) (idx &&& 3) = idx.toNat := by
  rw [writeIndex]
  congr 1
  apply BitVec.eq_of_getLsbD_eq
  intro i hi
  have hthree : (3 : BitVec 32) = low 2 := by decide
  simp only [hthree, BitVec.getLsbD_or, BitVec.getLsbD_shiftLeft, BitVec.getLsbD_ushiftRight,
    BitVec.getLsbD_and, getLsbD_low]
  by_cases h2 : i < 2
  · simp [hi, h2]
  · have hback : 2 + (i - 2) = i := by omega
    simp [hi, h2, hback]

variable {key : BitVec 32} {slot : Nat}

/-- The bits of an index: the position in the four rows, and a half of the key. -/
theorem hashIndex_testBit (hs : slot < 8) {j : Nat} (hj : j < 16)
    (hgap : 3 < slot → key.getLsbD 14 = false ∧ key.getLsbD 15 = false) :
    (hashIndex key slot).testBit j =
      if j < 2 then slot.testBit j else key.getLsbD (if 3 < slot then j + 14 else j - 2) := by
  have hpos : ∀ i < 2, (slot % 4).testBit i = slot.testBit i := by
    intro i hi
    have hmod := Nat.testBit_mod_two_pow slot 2 i
    rw [hmod]
    simp [hi]
  have hhigh : ∀ n < 4, ∀ i, 2 ≤ i → n.testBit i = false := fun n hn i hi =>
    Nat.testBit_eq_false_of_lt (lt_of_lt_of_le hn (Nat.pow_le_pow_right Nat.two_pos hi))
  rw [hashIndex]
  by_cases hslot : 3 < slot
  · obtain ⟨h14, h15⟩ := hgap hslot
    rw [if_pos hslot, if_pos hslot, BitVec.testBit_toNat, BitVec.getLsbD_or, BitVec.getLsbD_and,
      BitVec.getLsbD_ushiftRight, getLsbD_low, BitVec.getLsbD_ofNat, Nat.add_comm 14 j]
    by_cases h2 : j < 2
    · have hzero : key.getLsbD (j + 14) = false := by
        obtain rfl | rfl : j = 0 ∨ j = 1 := by omega
        · exact h14
        · exact h15
      have h32 : j < 32 := by omega
      rw [hzero, hpos j h2]
      simp [h2, h32]
    · rw [hhigh _ (Nat.mod_lt _ (by omega)) j (by omega)]
      have h32 : j < 32 := by omega
      simp [h2, hj, h32]
  · rw [if_neg hslot, if_neg hslot, BitVec.testBit_toNat, BitVec.getLsbD_and, BitVec.getLsbD_or,
      BitVec.getLsbD_shiftLeft, getLsbD_low, BitVec.getLsbD_ofNat]
    have h32 : j < 32 := by omega
    by_cases h2 : j < 2
    · simp [h2, hj, h32]
    · rw [hhigh slot (by omega) j (by omega)]
      simp [h2, hj, h32]

/-! ## Both halves of a key -/

section Both

variable {ctrl offset : BitVec 32} {k : BitVec 32 × BitVec 32} {w : Nat}

/-- The lower half is the one hash, the upper half the other one and the offset. -/
theorem bothKeys_getLsbD (hw : w ≤ 12) (hk : k.1.toNat < 2 ^ w ∧ k.2.toNat < 2 ^ w) {i : Nat}
    (hi : i < 32) :
    (bothKeys ctrl offset k).getLsbD i =
      if i < 16 then (if ctrl.getLsbD 0 then k.2 else k.1).getLsbD i
      else ((if ctrl.getLsbD 1 then k.2 else k.1) + offset).getLsbD (i - 16) := by
  rw [bothKeys, BitVec.getLsbD_or, BitVec.getLsbD_shiftLeft]
  by_cases h16 : i < 16
  · simp [h16]
  · rw [getLsbD_eq_false (toNat_if_lt hk) i (by omega)]
    simp [h16, hi]

theorem offset_hash (hw : w ≤ 12) (hk : k.1.toNat < 2 ^ w ∧ k.2.toNat < 2 ^ w)
    (ho : offset.toNat = 2 ^ w) (c : Bool) :
    ((if c then k.2 else k.1) + offset).toNat = 2 ^ w + (if c then k.2 else k.1).toNat := by
  have hlt : (if c then k.2 else k.1).toNat < 2 ^ w := toNat_if_lt hk
  have hpow : 2 ^ w ≤ 2 ^ 12 := Nat.pow_le_pow_right Nat.two_pos hw
  rw [BitVec.toNat_add, ho, Nat.add_comm, Nat.mod_eq_of_lt]
  omega

/-- The rows of the second block are in the upper half of the table. -/
theorem hashIndex_bothKeys (ctrl : BitVec 32) (hw : w ≤ 12)
    (hk : k.1.toNat < 2 ^ w ∧ k.2.toNat < 2 ^ w) (ho : offset.toNat = 2 ^ w) {slot : Nat}
    (hs : slot < 8) :
    hashIndex (bothKeys ctrl offset k) slot < 2 ^ (w + 3) ∧
      (hashIndex (bothKeys ctrl offset k) slot).testBit (w + 2) = decide (3 < slot) := by
  have hpow : 2 ^ w ≤ 2 ^ 12 := Nat.pow_le_pow_right Nat.two_pos hw
  have hlow : ∀ i, w ≤ i → (if ctrl.getLsbD 0 then k.2 else k.1).getLsbD i = false :=
    getLsbD_eq_false (toNat_if_lt hk)
  have hsum := offset_hash hw hk ho (ctrl.getLsbD 1)
  have hlt : (if ctrl.getLsbD 1 then k.2 else k.1).toNat < 2 ^ w := toNat_if_lt hk
  have hhigh : ∀ i, w + 1 ≤ i →
      ((if ctrl.getLsbD 1 then k.2 else k.1) + offset).getLsbD i = false :=
    getLsbD_eq_false (by rw [hsum, Nat.pow_succ]; omega)
  refine ⟨index_lt _ (by omega) hs (fun _ i hi hi16 => ?_) (fun _ i hi hi16 => ?_), ?_⟩
  · rw [bothKeys_getLsbD hw hk (by omega), if_pos (by omega)]
    exact hlow (i - 2) (by omega)
  · rw [bothKeys_getLsbD hw hk (by omega), if_neg (by omega)]
    exact hhigh (i + 14 - 16) (by omega)
  · have hgap : ∀ i, i = 14 ∨ i = 15 → (bothKeys ctrl offset k).getLsbD i = false := by
      intro i hi
      rw [bothKeys_getLsbD hw hk (by omega), if_pos (by omega)]
      exact hlow i (by omega)
    rw [hashIndex_testBit hs (by omega) fun _ => ⟨hgap 14 (.inl rfl), hgap 15 (.inr rfl)⟩,
      if_neg (by omega)]
    by_cases hslot : 3 < slot
    · have hbit : w + 2 + 14 - 16 = w := by omega
      rw [if_pos hslot, bothKeys_getLsbD hw hk (by omega), if_neg (by omega), hbit,
        ← BitVec.testBit_toNat, hsum, Nat.testBit_two_pow_add_eq, Nat.testBit_lt_two_pow hlt]
      simp [hslot]
    · have hbit : w + 2 - 2 = w := by omega
      rw [if_neg hslot, hbit, bothKeys_getLsbD hw hk (by omega), if_pos (by omega),
        hlow w le_rfl]
      simp [hslot]

end Both

/-! ## Rows of a bucket -/

variable (f : Family) (ctrl : BitVec 32) (seed : BitVec 64)

/-- A row of a bucket is in the table. -/
theorem hashIndex_lt_l2Rows {slot : Nat} (hs : slot < f.bucketSize) :
    hashIndex (hashKey f ctrl seed) slot < f.l2Rows := by
  cases f with
  | rtl838x => exact bucket_lt (by decide) (List.mem_map_of_mem (List.mem_range.2 hs))
  | rtl839x => exact bucket_lt (by decide) (List.mem_map_of_mem (List.mem_range.2 hs))
  | rtl930x => exact (hashIndex_bothKeys ctrl (by decide) (hashes930x_lt seed) rfl hs).1
  | rtl931x => exact (hashIndex_bothKeys ctrl (by decide) (hashes931x_lt seed) rfl hs).1

/-- Which half of the table it is in says which block it is of. -/
theorem hashIndex_block {a b : Nat} (ha : a < f.bucketSize) (hb : b < f.bucketSize)
    (h : hashIndex (hashKey f ctrl seed) a = hashIndex (hashKey f ctrl seed) b) :
    3 < a ↔ 3 < b := by
  cases f with
  | rtl838x =>
    simp only [Family.bucketSize] at ha hb
    omega
  | rtl839x =>
    simp only [Family.bucketSize] at ha hb
    omega
  | rtl930x =>
    have ho : (2048 : BitVec 32).toNat = 2 ^ 11 := by decide
    have hbit := (hashIndex_bothKeys ctrl (by decide) (hashes930x_lt seed) ho ha).2
    rw [hashKey] at h
    rw [h, (hashIndex_bothKeys ctrl (by decide) (hashes930x_lt seed) ho hb).2] at hbit
    simpa using hbit.symm
  | rtl931x =>
    have ho : (4096 : BitVec 32).toNat = 2 ^ 12 := by decide
    have hbit := (hashIndex_bothKeys ctrl (by decide) (hashes931x_lt seed) ho ha).2
    rw [hashKey] at h
    rw [h, (hashIndex_bothKeys ctrl (by decide) (hashes931x_lt seed) ho hb).2] at hbit
    simpa using hbit.symm

/-- No two positions of a bucket are the same row. -/
theorem hashIndex_inj {a b : Nat} (ha : a < f.bucketSize) (hb : b < f.bucketSize)
    (h : hashIndex (hashKey f ctrl seed) a = hashIndex (hashKey f ctrl seed) b) : a = b := by
  have hblock := hashIndex_block f ctrl seed ha hb h
  have hsize : f.bucketSize ≤ 8 := by cases f <;> decide
  have hgap : ∀ slot, slot < f.bucketSize → 3 < slot →
      (hashKey f ctrl seed).getLsbD 14 = false ∧ (hashKey f ctrl seed).getLsbD 15 = false := by
    intro slot hs hslot
    have h93 : f.is93xx = true := by
      cases f <;> simp_all [Family.bucketSize, Family.is93xx] <;> omega
    have hkey := hashKey_gap f ctrl seed
    rw [h93] at hkey
    exact ⟨hkey 14 (by omega), hkey 15 (by omega)⟩
  have hpos : ∀ j < 2, a.testBit j = b.testBit j := by
    intro j hj
    have hbit := congrArg (Nat.testBit · j) h
    rwa [hashIndex_testBit (by omega) (by omega) (hgap a ha),
      hashIndex_testBit (by omega) (by omega) (hgap b hb), if_pos hj, if_pos hj] at hbit
  have hmod : a % 2 ^ 2 = b % 2 ^ 2 := by
    apply Nat.eq_of_testBit_eq
    intro j
    rw [Nat.testBit_mod_two_pow, Nat.testBit_mod_two_pow]
    by_cases hj : j < 2
    · rw [hpos j hj]
    · simp [hj]
  omega

/-- What is read at a position of a bucket is the row that the index handed out for it is written
to; it is in the table, and no other position has it. -/
theorem hashRow_addressed (i : Nat) (hi : i < f.bucketSize) :
    let key := hashKey f ctrl seed
    let idx := BitVec.ofNat 32 (hashIndex key i)
    readIndex f key i = writeIndex (idx >>> 2) (idx &&& 3) ∧ readIndex f key i < f.l2Rows ∧
      ∀ j < f.bucketSize, j ≠ i → readIndex f key j ≠ readIndex f key i := by
  have hlt := hashIndex_lt_l2Rows f ctrl seed hi
  have hrows : f.l2Rows ≤ 2 ^ 15 := by cases f <;> decide
  simp only
  rw [readIndex_eq f ctrl seed hi, writeIndex_split, BitVec.toNat_ofNat,
    Nat.mod_eq_of_lt (by omega)]
  refine ⟨rfl, hlt, fun j hj hne heq => hne ?_⟩
  rw [readIndex_eq f ctrl seed hj] at heq
  exact hashIndex_inj f ctrl seed hj hi heq

/-- The last row of both blocks on the widest table. -/
theorem hashRow_addressed_last :
    readIndex .rtl931x (hashKey .rtl931x 0 0xfff) 7 = 32767 ∧ (32767 : Nat) < 32768 := by
  have h := (hashRow_addressed .rtl931x 0 0xfff 7 (by decide)).2.1
  have hrow : readIndex .rtl931x (hashKey .rtl931x 0 0xfff) 7 = 32767 := by decide +kernel
  exact ⟨hrow, hrow ▸ h⟩

end Lede.Otto
