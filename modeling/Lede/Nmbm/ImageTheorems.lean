/-
Lede.Nmbm.ImageTheorems — the bytes of an info table: what
`nmbm_generate_info_table_cache` puts into an image is what the loader takes
out of it, and the image passes the checks of the loader.

The three parts of an image do not overlap when the offsets in the header are
those of `nmbm_init_structure` (`StdHeader`). A chip of at least two blocks is
small enough for the size of an image to be a `u32` (`infoTableSize_lt`).
-/
import Lede.Nmbm.IoTheorems

namespace Lede.Nmbm

open Lede.Nand Lede.Bmt Lede.Lib

/-! ## Sizes -/

section Sizes

variable (d : NmbmDesc)

theorem le_alignUp (n : Nat) {a : Nat} (ha : 0 < a) : n ≤ alignUp n a := by
  have hdiv := Nat.div_add_mod (n + a - 1) a
  have hmod := Nat.mod_lt (n + a - 1) ha
  unfold alignUp
  rw [Nat.mul_comm]
  omega

theorem alignUp_lt (n : Nat) {a : Nat} (ha : 0 < a) : alignUp n a < n + a := by
  have hle := Nat.div_mul_le_self (n + a - 1) a
  unfold alignUp
  omega

theorem stateTableOff_ge : 32 ≤ d.stateTableOff := le_alignUp 32 d.pgSize_pos

theorem mappingTableOff_ge : d.stateTableOff + d.stateTableSize ≤ d.mappingTableOff :=
  Nat.add_le_add_left (le_alignUp _ d.pgSize_pos) _

theorem infoTableSize_ge : d.mappingTableOff + d.mappingTableSize ≤ d.infoTableSize :=
  Nat.add_le_add_left (le_alignUp _ d.pgSize_pos) _

/-- The sizes of a chip of two blocks or more are `u32` values. -/
theorem infoTableSize_lt (h : 2 ≤ d.blockCount) : d.infoTableSize < 2 ^ 32 := by
  have hpos := d.pgSize_pos
  have hbc : d.blockCount < 65536 := d.totalBlks_lt
  have hpg : d.pgSize ≤ 2 ^ 30 := by
    have hle : d.pgSize ≤ d.blkSize := Nat.pow_le_pow_right (by decide) d.pgShift_le
    have hsize : d.blockCount * d.blkSize ≤ 2 ^ 31 := d.size_le
    have htwo : 2 * d.blkSize ≤ d.blockCount * d.blkSize := Nat.mul_le_mul_right _ h
    omega
  have h₁ := alignUp_lt 32 hpos
  have h₂ := alignUp_lt d.stateTableSize hpos
  have h₃ := alignUp_lt d.mappingTableSize hpos
  have hst : d.stateTableSize ≤ 4 * 65536 := by
    unfold NmbmDesc.stateTableSize NmbmDesc.stateWords
    omega
  have hmt : d.mappingTableSize ≤ 4 * 65536 := by
    unfold NmbmDesc.mappingTableSize
    omega
  unfold NmbmDesc.infoTableSize NmbmDesc.mappingTableOff NmbmDesc.stateTableOff
  omega

end Sizes

/-! ## The checksum -/

section Checksum

variable (m : Nat → UInt8)

theorem nmbmUpdateChecksum_of_not_mem {a : Nat} (h : ¬ (12 ≤ a ∧ a < 16)) :
    nmbmUpdateChecksum m a = m a := put32_of_not_mem m _ h

theorem get32_nmbmUpdateChecksum {o : Nat} (h : o + 4 ≤ 12 ∨ 16 ≤ o) :
    get32 (nmbmUpdateChecksum m) o = get32 m o := get32_put32_of_disjoint m _ h

/-- A structure passes the check right after its checksum was set. -/
theorem nmbmCheckHeader_update {size : Nat} (h16 : 16 < get32 m 8) (hsize : get32 m 8 ≤ size) :
    nmbmCheckHeader (nmbmUpdateChecksum m) size = true := by
  have hlen : get32 (nmbmUpdateChecksum m) 8 = get32 m 8 := get32_nmbmUpdateChecksum m (by omega)
  have hclear : clearChecksum (nmbmUpdateChecksum m) = clearChecksum m := by
    funext a
    unfold clearChecksum
    by_cases ha : 12 ≤ a ∧ a < 12 + 4
    · rw [put32, put32, if_pos ha, if_pos ha]
    · rw [put32_of_not_mem _ _ ha, put32_of_not_mem _ _ ha, nmbmUpdateChecksum_of_not_mem m ha]
  have htail : crc32Le (crc32Le 0 (clearChecksum m) 0 16) (nmbmUpdateChecksum m) 16 (get32 m 8 - 16)
      = crc32Le 0 (clearChecksum m) 0 (get32 m 8) := by
    rw [show get32 m 8 = 16 + (get32 m 8 - 16) by omega, ← crc32Le_append, Nat.zero_add,
      show 16 + (get32 m 8 - 16) - 16 = get32 m 8 - 16 by omega]
    apply crc32Le_congr
    intro i _
    rw [nmbmUpdateChecksum_of_not_mem m (by omega), clearChecksum, put32_of_not_mem _ _ (by omega)]
  unfold nmbmCheckHeader
  rw [hlen, if_neg (by omega), hclear]
  dsimp only
  rw [if_pos h16, htail, nmbmUpdateChecksum, get32_put32_self,
    Nat.mod_eq_of_lt (crc32Le 0 (clearChecksum m) 0 (get32 m 8)).isLt]
  exact beq_self_eq_true _

end Checksum

/-! ## The header -/

section Header

variable (m : Nat → UInt8) (h : InfoTableHeader)

theorem putInfoTableHeader_of_ge {a : Nat} (ha : 32 ≤ a) : putInfoTableHeader m h a = m a := by
  unfold putInfoTableHeader
  rw [put32_of_not_mem _ _ (by omega), put32_of_not_mem _ _ (by omega),
    put32_of_not_mem _ _ (by omega), put32_of_not_mem _ _ (by omega),
    put32_of_not_mem _ _ (by omega), put32_of_not_mem _ _ (by omega),
    put32_of_not_mem _ _ (by omega), put32_of_not_mem _ _ (by omega)]

/-- The fields of a header, read back from its bytes. -/
theorem get32_putInfoTableHeader :
    get32 (putInfoTableHeader m h) 0 = h.magic % 2 ^ 32 ∧
    get32 (putInfoTableHeader m h) 8 = h.size % 2 ^ 32 ∧
    get32 (putInfoTableHeader m h) 16 = h.writeCount % 2 ^ 32 ∧
    get32 (putInfoTableHeader m h) 20 = h.stateTableOff % 2 ^ 32 ∧
    get32 (putInfoTableHeader m h) 24 = h.mappingTableOff % 2 ^ 32 := by
  unfold putInfoTableHeader
  simp only [get32_put32_self, get32_put32_of_disjoint, Nat.reduceAdd, Nat.reduceLeDiff, true_or,
    and_self]

end Header

/-! ## A generated image -/

/-- The header in memory has the offsets of `nmbm_init_structure`. -/
def StdHeader (d : NmbmDesc) (h : InfoTableHeader) : Prop :=
  h.stateTableOff = d.stateTableOff ∧ h.mappingTableOff = d.mappingTableOff

/-- What the loader takes out of an image: the two tables and the write count,
behind a header it accepts. -/
structure ImageOf (d : NmbmDesc) (img : Nat → UInt8) (state map : Nat → BitVec 32) (wc : Nat) :
    Prop where
  hdr : nmbmCheckInfoTableHeader d img = true
  crc : nmbmCheckHeader img d.infoTableSize = true
  stateOff : get32 img 20 = d.stateTableOff
  mapOff : get32 img 24 = d.mappingTableOff
  count : get32 img 16 = wc
  state : ∀ i < d.stateWords, getWord img d.stateTableOff i = state i
  map : ∀ i < d.blockCount, getWord img d.mappingTableOff i = map i

/-- A body that holds the two tables, with the header put over it and the checksum
set, is an image of them. -/
theorem imageOf_header {d : NmbmDesc} (hbc : 2 ≤ d.blockCount) {body : Nat → UInt8}
    {hdr : InfoTableHeader} {state map : Nat → BitVec 32} (hmagic : hdr.magic = nmbmMagicInfoTable)
    (hsize : hdr.size = d.infoTableSize) (hstd : StdHeader d hdr) (hwc : hdr.writeCount < 2 ^ 32)
    (hstate : ∀ i < d.stateWords, getWord body d.stateTableOff i = state i)
    (hmap : ∀ i < d.blockCount, getWord body d.mappingTableOff i = map i) :
    ImageOf d (nmbmUpdateChecksum (putInfoTableHeader body hdr)) state map hdr.writeCount := by
  have hlt := infoTableSize_lt d hbc
  have h₁ := stateTableOff_ge d
  have h₂ := mappingTableOff_ge d
  have h₃ := infoTableSize_ge d
  obtain ⟨g0, g8, g16, g20, g24⟩ := get32_putInfoTableHeader body hdr
  rw [hmagic] at g0
  rw [hsize, Nat.mod_eq_of_lt hlt] at g8
  rw [Nat.mod_eq_of_lt hwc] at g16
  rw [hstd.1, Nat.mod_eq_of_lt (by omega)] at g20
  rw [hstd.2, Nat.mod_eq_of_lt (by omega)] at g24
  -- the tables lie behind the header
  have hbody : ∀ a, 32 ≤ a → nmbmUpdateChecksum (putInfoTableHeader body hdr) a = body a := by
    intro a ha
    rw [nmbmUpdateChecksum_of_not_mem _ (by omega), putInfoTableHeader_of_ge _ _ ha]
  constructor
  · unfold nmbmCheckInfoTableHeader
    rw [get32_nmbmUpdateChecksum _ (by omega), get32_nmbmUpdateChecksum _ (by omega),
      get32_nmbmUpdateChecksum _ (by omega), get32_nmbmUpdateChecksum _ (by omega), g0, g8, g20, g24]
    unfold subU32
    simp only [Bool.and_eq_true, beq_iff_eq, decide_eq_true_eq]
    refine ⟨⟨⟨rfl, trivial⟩, ?_⟩, ?_⟩
    · omega
    · omega
  · exact nmbmCheckHeader_update _ (by omega) (by omega)
  · rw [get32_nmbmUpdateChecksum _ (by omega), g20]
  · rw [get32_nmbmUpdateChecksum _ (by omega), g24]
  · rw [get32_nmbmUpdateChecksum _ (by omega), g16]
  · intro i hi
    rw [← hstate i hi]
    exact getWord_congr fun j hj => hbody _ (by omega)
  · intro i hi
    rw [← hmap i hi]
    exact getWord_congr fun j hj => hbody _ (by omega)

section Generate

variable (d : NmbmDesc) (ni : NmbmInstance)

/-- The write count `nmbm_generate_info_table_cache` leaves. -/
def nextWriteCount : Nat :=
  if tablesChanged ni then (ni.infoTable.writeCount + 1) % 2 ^ 32 else ni.infoTable.writeCount

variable {d ni}

/-- The image in the cache holds the tables in memory. -/
theorem nmbmGenerate_image (hbc : 2 ≤ d.blockCount) (hstd : StdHeader d ni.infoTable)
    (hwc : ni.infoTable.writeCount < 2 ^ 32) :
    ImageOf d (nmbmGenerateInfoTableCache d ni).2.infoTableCache ni.blockState ni.blockMapping
      (nextWriteCount ni) := by
  have h₂ := mappingTableOff_ge d
  have hsts : d.stateTableSize = d.stateWords * 4 := rfl
  refine imageOf_header hbc rfl rfl hstd ?_ (fun i hi => ?_) (fun i hi => ?_)
  · show nextWriteCount ni < 2 ^ 32
    unfold nextWriteCount
    split
    · exact Nat.mod_lt _ (by decide)
    · exact hwc
  · rw [hstd.1, hstd.2, ← getWord_putWords_self
      (fun a => if a < d.infoTableSize then 0xff else ni.infoTableCache a) d.stateTableOff
      ni.blockState hi]
    exact getWord_congr fun j hj => putWords_of_not_mem _ _ (by omega)
  · rw [hstd.2]
    exact getWord_putWords_self _ d.mappingTableOff ni.blockMapping hi

end Generate

end Lede.Nmbm
