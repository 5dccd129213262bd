/-
Lede.Bmt.BbtTheorems — what the `mediatek,bbt` back end maps where, and when a
remap of one logical block leaves the others alone.

`getMappingBlockIndexBbt` inverts the stable partition of the range by "good"
(`getMapping_spec`): logical block `start + k` goes to the block of rank `k`.
Marking a block bad changes the ranks of its neighbours, so a remap is local
only in the corner `remapBlockBbt_local_iff` describes.
-/
import Lede.Bmt.Bbt
import Lede.Lib.StablePartition
import Mathlib.Tactic.IntervalCases

namespace Lede.Bmt

open Lede.Nand Lede.Lib

/-! ## The bitmap -/

theorem or_and_eq_of_disjoint {v a b : UInt8} (h : a &&& b = 0) : (v ||| a) &&& b = v &&& b := by
  apply UInt8.toNat_inj.mp
  have h' : a.toNat &&& b.toNat = 0 := by
    simpa using congrArg UInt8.toNat h
  simp [Nat.and_or_distrib_right, h']

theorem or_and_self_ne_zero {v a : UInt8} (h : a ≠ 0) : (v ||| a) &&& a ≠ 0 := by
  have h' : (v ||| a) &&& a = a := by
    apply UInt8.toNat_inj.mp
    apply Nat.eq_of_testBit_eq
    intro i
    simp
    cases a.toNat.testBit i <;> simp
  rwa [h']

theorem bbtMask_ne_zero (block : Nat) : bbtMask block ≠ 0 := by
  have h : block % 4 < 4 := Nat.mod_lt _ (by decide)
  unfold bbtMask
  generalize block % 4 = r at h
  interval_cases r <;> decide

theorem bbtMask_disjoint {a b : Nat} (h : a % 4 ≠ b % 4) : bbtMask a &&& bbtMask b = 0 := by
  have ha : a % 4 < 4 := Nat.mod_lt _ (by decide)
  have hb : b % 4 < 4 := Nat.mod_lt _ (by decide)
  unfold bbtMask
  generalize a % 4 = r at h ha
  generalize b % 4 = q at h hb
  interval_cases r <;> interval_cases q <;> first | decide | exact absurd rfl h

/-- Marking `m` bad makes `m` bad and changes no other block. -/
theorem bbtBlockIsBad_setBits (buf : Nat → UInt8) (m x : Nat) :
    bbtBlockIsBad (bbtSetBits buf m true) x = (bbtBlockIsBad buf x || decide (x = m)) := by
  by_cases hx : x = m
  · subst hx
    simpa [bbtBlockIsBad, bbtSetBits] using or_and_self_ne_zero (bbtMask_ne_zero x)
  · simp only [bbtBlockIsBad, bbtSetBits, hx, decide_false, Bool.or_false, if_true]
    split
    · next hbyte =>
      have hmod : m % 4 ≠ x % 4 := by omega
      rw [or_and_eq_of_disjoint (bbtMask_disjoint hmod)]
    · rfl

/-! ## Ranges in blocks -/

namespace RemapRange

variable {g : Geometry}

/-- First block of the range. -/
def start (r : RemapRange g) : Nat := r.lo >>> g.blkShift

/-- Block after the range. -/
def stop (r : RemapRange g) : Nat := r.hi >>> g.blkShift

theorem start_mul (r : RemapRange g) : r.start * g.blkSize = r.lo := by
  rw [start, Nat.shiftRight_eq_div_pow]
  exact Nat.div_mul_cancel r.lo_dvd

theorem stop_mul (r : RemapRange g) : r.stop * g.blkSize = r.hi := by
  rw [stop, Nat.shiftRight_eq_div_pow]
  exact Nat.div_mul_cancel r.hi_dvd

theorem mem_iff (r : RemapRange g) (b : Nat) :
    (r.lo ≤ b * g.blkSize ∧ b * g.blkSize < r.hi) ↔ r.start ≤ b ∧ b < r.stop := by
  rw [← start_mul, ← stop_mul, Nat.mul_le_mul_right_iff g.blkSize_pos,
    Nat.mul_lt_mul_right g.blkSize_pos]

theorem start_lt_stop (r : RemapRange g) : r.start < r.stop := by
  have h := r.lo_lt_hi
  rw [← start_mul, ← stop_mul] at h
  exact Nat.lt_of_mul_lt_mul_right h

end RemapRange

/-- With disjoint ranges the first range that contains a block is the only one. -/
theorem find?_eq_of_mem {g : Geometry} (b : Nat) : ∀ (rs : List (RemapRange g)) (r : RemapRange g),
    (rs.Pairwise fun r r' => r.hi ≤ r'.lo ∨ r'.hi ≤ r.lo) → r ∈ rs →
    r.lo ≤ b * g.blkSize → b * g.blkSize < r.hi →
    rs.find? (fun r => decide (r.lo ≤ b * g.blkSize ∧ b * g.blkSize < r.hi)) = some r
  | r₀ :: rs, r, hp, hmem, hlo, hhi => by
      rw [List.pairwise_cons] at hp
      rw [List.find?_cons]
      rcases List.mem_cons.mp hmem with rfl | hmem
      · simp [hlo, hhi]
      · have hout : ¬ (r₀.lo ≤ b * g.blkSize ∧ b * g.blkSize < r₀.hi) := by
          intro h
          have := hp.1 r hmem
          omega
        simp only [hout, decide_false]
        exact find?_eq_of_mem b rs r hp.2 hmem hlo hhi

section

variable {d : BmtDesc}

/-- The logical blocks of a configured range are the blocks it spans. -/
theorem mappingBlockInRange_of_mem {r : RemapRange d.toGeometry} (hr : r ∈ d.remapRange) {b : Nat}
    (h₁ : r.start ≤ b) (h₂ : b < r.stop) : mappingBlockInRange d b = some (r.lo, r.hi) := by
  have hne : d.remapRange.isEmpty = false := by
    cases h : d.remapRange with
    | nil => rw [h] at hr; exact absurd hr (by simp)
    | cons _ _ => rfl
  obtain ⟨hlo, hhi⟩ := (r.mem_iff b).mpr ⟨h₁, h₂⟩
  simp only [mappingBlockInRange, hne, Bool.false_eq_true, if_false]
  rw [find?_eq_of_mem b d.remapRange r d.disjoint hr hlo hhi]
  rfl

/-! ## The two loops -/

/-- "Good" in a range that begins at `start`, by the offset in the range. -/
def GoodAt (buf : Nat → UInt8) (start i : Nat) : Prop := bbtBlockIsBad buf (start + i) = false

instance (buf : Nat → UInt8) (start : Nat) : DecidablePred (GoodAt buf start) :=
  fun i => inferInstanceAs (Decidable (bbtBlockIsBad buf (start + i) = false))

theorem goodAt_succ (buf : Nat → UInt8) (start i : Nat) :
    GoodAt buf start (i + 1) ↔ GoodAt buf (start + 1) i := by
  unfold GoodAt
  rw [Nat.add_assoc, Nat.add_comm 1 i]

theorem count_goodAt_succ (buf : Nat → UInt8) (start n : Nat) :
    Nat.count (GoodAt buf start) (n + 1)
      = Nat.count (GoodAt buf (start + 1)) n + if GoodAt buf start 0 then 1 else 0 := by
  rw [Nat.count_succ']
  simp only [goodAt_succ]

theorem count_badAt_succ (buf : Nat → UInt8) (start n : Nat) :
    Nat.count (fun k => ¬ GoodAt buf start k) (n + 1)
      = Nat.count (fun k => ¬ GoodAt buf (start + 1) k) n + if GoodAt buf start 0 then 0 else 1 := by
  rw [Nat.count_succ']
  simp only [goodAt_succ, ite_not]

/-- The first loop stops at the good block with `ofs` good ones before it, or
runs to the end with the good blocks taken off `ofs` and the bad ones counted. -/
theorem bbtSkipLoop_spec (buf : Nat → UInt8) : ∀ (n i ofs bad : Nat),
    (∃ j < n, GoodAt buf i j ∧ Nat.count (GoodAt buf i) j = ofs ∧
        (bbtSkipLoop buf n i ofs bad).1 = i + j) ∨
      (Nat.count (GoodAt buf i) n ≤ ofs ∧
        bbtSkipLoop buf n i ofs bad
          = (i + n, ofs - Nat.count (GoodAt buf i) n,
             bad + Nat.count (fun k => ¬ GoodAt buf i k) n))
  | 0, i, ofs, bad => Or.inr ⟨by simp, by simp [bbtSkipLoop]⟩
  | n + 1, i, ofs, bad => by
      cases hb : bbtBlockIsBad buf i with
      | true =>
        have h0 : ¬ GoodAt buf i 0 := by simp [GoodAt, hb]
        rw [bbtSkipLoop, if_pos hb]
        rcases bbtSkipLoop_spec buf n (i + 1) ofs (bad + 1) with ⟨j, hj, hg, hc, he⟩ | ⟨hc, he⟩
        · refine Or.inl ⟨j + 1, by omega, (goodAt_succ buf i j).mpr hg, ?_, by rw [he]; omega⟩
          rw [count_goodAt_succ, if_neg h0, hc, Nat.add_zero]
        · refine Or.inr ⟨?_, ?_⟩
          · rwa [count_goodAt_succ, if_neg h0, Nat.add_zero]
          · rw [he, count_goodAt_succ, count_badAt_succ, if_neg h0, if_neg h0]
            simp only [Prod.mk.injEq]
            omega
      | false =>
        have h0 : GoodAt buf i 0 := by simpa [GoodAt] using hb
        rw [bbtSkipLoop, if_neg (by simp [hb])]
        cases ofs with
        | zero => exact Or.inl ⟨0, by omega, h0, by simp, rfl⟩
        | succ ofs =>
          rw [if_pos (by omega), Nat.add_sub_cancel]
          rcases bbtSkipLoop_spec buf n (i + 1) ofs bad with ⟨j, hj, hg, hc, he⟩ | ⟨hc, he⟩
          · refine Or.inl ⟨j + 1, by omega, (goodAt_succ buf i j).mpr hg, ?_, by rw [he]; omega⟩
            rw [count_goodAt_succ, if_pos h0, hc]
          · refine Or.inr ⟨?_, ?_⟩
            · rw [count_goodAt_succ, if_pos h0]
              omega
            · rw [he, count_goodAt_succ, count_badAt_succ, if_pos h0, if_pos h0]
              simp only [Prod.mk.injEq]
              omega

/-- The second loop finds the bad block with `ofs` bad ones before it. -/
theorem bbtOverflowLoop_spec (buf : Nat → UInt8) (start ofs : Nat) : ∀ n : Nat,
    ofs < Nat.count (fun k => ¬ GoodAt buf start k) n →
    ∃ j < n, ¬ GoodAt buf start j ∧ Nat.count (fun k => ¬ GoodAt buf start k) j = ofs ∧
      bbtOverflowLoop buf ofs (start + n) (Nat.count (fun k => ¬ GoodAt buf start k) n)
        = some (start + j)
  | 0, h => by simp at h
  | n + 1, h => by
      rw [Nat.count_succ] at h ⊢
      rw [← Nat.add_assoc, bbtOverflowLoop]
      by_cases hg : GoodAt buf start n
      · have hb : bbtBlockIsBad buf (start + n) = false := hg
        simp only [hg, not_true_eq_false, if_false, Nat.add_zero] at h ⊢
        obtain ⟨j, hj, hbad, hc, he⟩ := bbtOverflowLoop_spec buf start ofs n h
        refine ⟨j, by omega, hbad, hc, ?_⟩
        rw [if_neg (by omega), hb]
        simpa using he
      · have hb : bbtBlockIsBad buf (start + n) = true := by simpa [GoodAt] using hg
        simp only [hg, not_false_eq_true, if_true] at h ⊢
        rw [if_neg (by omega), hb, if_pos rfl, Nat.add_sub_cancel]
        by_cases hle : Nat.count (fun k => ¬ GoodAt buf start k) n ≤ ofs
        · exact ⟨n, by omega, hg, by omega, by rw [if_pos hle]⟩
        · obtain ⟨j, hj, hbad, hc, he⟩ := bbtOverflowLoop_spec buf start ofs n (by omega)
          exact ⟨j, by omega, hbad, hc, by rw [if_neg hle]; exact he⟩

/-! ## The mapping of a range -/

/-- `get_mapping_block_index_bbt` once the bounds are there. -/
def bbtRangeIndex (buf : Nat → UInt8) (start stop block : Nat) : Nat :=
  let (i, ofs, bad) := bbtSkipLoop buf (stop - start) start (block - start) 0
  if i < stop then i else (bbtOverflowLoop buf ofs stop bad).getD block

/-- A logical block of the range goes to the block of the range whose rank is its offset. -/
theorem bbtRangeIndex_spec (buf : Nat → UInt8) {start stop b : Nat} (h₁ : start ≤ b) (h₂ : b < stop) :
    ∃ i < stop - start, bbtRangeIndex buf start stop b = start + i ∧
      rank (GoodAt buf start) (stop - start) i = b - start := by
  have hstop : start + (stop - start) = stop := by omega
  unfold bbtRangeIndex
  rcases bbtSkipLoop_spec buf (stop - start) start (b - start) 0 with ⟨j, hj, hg, hc, he⟩ | ⟨hc, he⟩
  · refine ⟨j, hj, ?_, by rw [rank_of_mem hg, hc]⟩
    dsimp only
    rw [he, if_pos (by omega)]
  · have hsum := count_add_count_not (GoodAt buf start) (stop - start)
    obtain ⟨j, hj, hbad, hcj, hej⟩ := bbtOverflowLoop_spec buf start
      (b - start - Nat.count (GoodAt buf start) (stop - start)) (stop - start) (by omega)
    refine ⟨j, hj, ?_, by rw [rank_of_not_mem hbad]; omega⟩
    rw [he]
    dsimp only
    rw [if_neg (by omega), Nat.zero_add]
    rw [hstop] at hej
    rw [hej]
    rfl

theorem getMapping_of_mem (buf : Nat → UInt8) {r : RemapRange d.toGeometry} (hr : r ∈ d.remapRange)
    {b : Nat} (h₁ : r.start ≤ b) (h₂ : b < r.stop) :
    getMappingBlockIndexBbt d buf b = bbtRangeIndex buf r.start r.stop b := by
  rw [getMappingBlockIndexBbt, mappingBlockInRange_of_mem hr h₁ h₂]
  rfl

theorem getMapping_spec (buf : Nat → UInt8) {r : RemapRange d.toGeometry} (hr : r ∈ d.remapRange)
    {b : Nat} (h₁ : r.start ≤ b) (h₂ : b < r.stop) :
    ∃ i < r.stop - r.start, getMappingBlockIndexBbt d buf b = r.start + i ∧
      rank (GoodAt buf r.start) (r.stop - r.start) i = b - r.start := by
  rw [getMapping_of_mem buf hr h₁ h₂]
  exact bbtRangeIndex_spec buf h₁ h₂

/-- A block of the range with the right rank is the image. -/
theorem getMapping_eq_of_rank (buf : Nat → UInt8) {r : RemapRange d.toGeometry}
    (hr : r ∈ d.remapRange) {b i : Nat} (h₁ : r.start ≤ b) (h₂ : b < r.stop)
    (hi : i < r.stop - r.start)
    (hrank : rank (GoodAt buf r.start) (r.stop - r.start) i = b - r.start) :
    getMappingBlockIndexBbt d buf b = r.start + i := by
  obtain ⟨j, hj, he, hrj⟩ := getMapping_spec buf hr h₁ h₂
  rw [he, rank_inj hj hi (hrj.trans hrank.symm)]

/-- Every block of the range is the image of the logical block at its rank. -/
theorem getMapping_rank (buf : Nat → UInt8) {r : RemapRange d.toGeometry} (hr : r ∈ d.remapRange)
    {i : Nat} (hi : i < r.stop - r.start) :
    getMappingBlockIndexBbt d buf
      (r.start + rank (GoodAt buf r.start) (r.stop - r.start) i) = r.start + i := by
  have hlt := rank_lt (p := GoodAt buf r.start) hi
  exact getMapping_eq_of_rank buf hr (by omega) (by omega) hi (by omega)

/-! ## What a remap does -/

/-- The bitmap after a remap: the given physical block marked bad. -/
theorem remapBlockBbt_buf (dev : LowerDev) (s : Bmtd BbtTbl) {r : RemapRange d.toGeometry}
    (hr : r ∈ d.remapRange) {b : Nat} (h₁ : r.start ≤ b) (h₂ : b < r.stop) (m copyLen : Nat) :
    (remapBlockBbt d dev s b m copyLen).2.tbl.bbtBuf = bbtSetBits s.tbl.bbtBuf m true := by
  rw [remapBlockBbt, mappingBlockInRange_of_mem hr h₁ h₂]
  rfl

/-- The flash after a remap, and the blocks that were erased or programmed: the
table and the new block. -/
theorem remapBlockBbt_flash (dev : LowerDev) (s : Bmtd BbtTbl) {r : RemapRange d.toGeometry}
    (hr : r ∈ d.remapRange) {b : Nat} (h₁ : r.start ≤ b) (h₂ : b < r.stop) (m copyLen : Nat) :
    Flash.Touches d.toGeometry
      (tableBlocks d s.tbl.bmtBlkIdx
        ∪ {getMappingBlockIndexBbt d (bbtSetBits s.tbl.bbtBuf m true) b})
      s.flash (remapBlockBbt d dev s b m copyLen).2.flash := by
  have hstore : Flash.Touches d.toGeometry (tableBlocks d s.tbl.bmtBlkIdx) s.flash
      (bbtSetBlockState d dev s m true).flash :=
    (bbtNandErase_touches dev s.flash (mem_tableBlocks_self _)).trans
      (writeBmt_touches dev bbtSig _ _ _ (Set.Subset.refl _))
  rw [remapBlockBbt, mappingBlockInRange_of_mem hr h₁ h₂]
  refine hstore.union ?_
  have herase := bbtNandErase_touches (d := d) dev (bbtSetBlockState d dev s m true).flash
    (Set.mem_singleton (getMappingBlockIndexBbt d (bbtSetBits s.tbl.bbtBuf m true) b))
  dsimp only
  split
  · exact herase.trans (bbtNandCopy_touches dev _ _ _ (Set.mem_singleton _))
  · exact herase

/-- Good blocks after a remap: those before it without the one given up. -/
theorem goodAt_setBits (buf : Nat → UInt8) (start i k : Nat) :
    GoodAt (bbtSetBits buf (start + i) true) start k ↔ GoodAt buf start k ∧ k ≠ i := by
  unfold GoodAt
  rw [bbtBlockIsBad_setBits]
  simp

/-! ## When a remap is local -/

/-- A remap of logical block `b` is local: on every chip, whatever its pages
hold and however its operations end, every other logical block of the range
keeps its physical block, that block is not given to `b`, and every page of it
reads as before. -/
def RemapLocal (d : BmtDesc) (r : RemapRange d.toGeometry) (tbl : BbtTbl) (b copyLen : Nat) :
    Prop :=
  ∀ (dev : LowerDev) (fl : Flash) (b' : Nat), r.start ≤ b' → b' < r.stop → b' ≠ b →
    let map := getMappingBlockIndexBbt d tbl.bbtBuf
    let s := (remapBlockBbt d dev ⟨fl, tbl⟩ b (map b) copyLen).2
    let map' := getMappingBlockIndexBbt d s.tbl.bbtBuf
    map' b' = map b' ∧ map' b ≠ map b' ∧
      ∀ j < d.ppb, s.flash.page (d.blkPg (map' b') + j) = fl.page (d.blkPg (map b') + j)

/-- The condition on the bitmap and the place of the table: no other block of
the range holds the table, and the block given up is bad already or closes the
good blocks of the range, with no bad block before it. -/
def LastGood (d : BmtDesc) (r : RemapRange d.toGeometry) (tbl : BbtTbl) (m : Nat) : Prop :=
  (∀ x ∈ tableBlocks d tbl.bmtBlkIdx, r.start ≤ x → x < r.stop → x = m) ∧
  (bbtBlockIsBad tbl.bbtBuf m = true ∨
    ∀ x, r.start ≤ x → x < r.stop → x ≠ m →
      if bbtBlockIsBad tbl.bbtBuf x = true then m < x else x < m)

/-- The ranks of the other blocks survive under the condition. -/
theorem rank_setBits_of_lastGood {r : RemapRange d.toGeometry} {tbl : BbtTbl} {i k : Nat}
    (hi : i < r.stop - r.start) (hk : k < r.stop - r.start) (hne : k ≠ i)
    (h : LastGood d r tbl (r.start + i)) :
    rank (GoodAt (bbtSetBits tbl.bbtBuf (r.start + i) true) r.start) (r.stop - r.start) k
      = rank (GoodAt tbl.bbtBuf r.start) (r.stop - r.start) k := by
  rw [rank_congr (goodAt_setBits tbl.bbtBuf r.start i)]
  rcases h.2 with hbad | hlast
  · -- the block was bad before: nothing changed
    apply rank_congr
    intro x
    refine ⟨fun hx => hx.1, fun hx => ⟨hx, ?_⟩⟩
    rintro rfl
    exact absurd (hx.symm.trans hbad) (by decide)
  · by_cases hgood : GoodAt tbl.bbtBuf r.start i
    · rw [rank_clear_iff hgood hi hne]
      have hx := hlast (r.start + k) (by omega) (by omega) (by omega)
      by_cases hk : GoodAt tbl.bbtBuf r.start k
      · have hb : bbtBlockIsBad tbl.bbtBuf (r.start + k) = false := hk
        simp only [hb, Bool.false_eq_true, if_false] at hx
        rw [if_pos hk]
        omega
      · have hb : bbtBlockIsBad tbl.bbtBuf (r.start + k) = true := by simpa [GoodAt] using hk
        simp only [hb, if_true] at hx
        rw [if_neg hk]
        omega
    · apply rank_congr
      intro x
      refine ⟨fun hx => hx.1, fun hx => ⟨hx, ?_⟩⟩
      rintro rfl
      exact hgood hx

/-- **Locality of a BBT remap.** The remap of logical block `b` leaves the
other logical blocks of the range alone exactly when the block `b` was mapped
to is bad already or the last good block of the range with all bad ones behind
it, and no other block of the range holds the bitmap itself. -/
theorem remapBlockBbt_local_iff (d : BmtDesc) {r : RemapRange d.toGeometry}
    (hr : r ∈ d.remapRange) (tbl : BbtTbl) {b : Nat} (h₁ : r.start ≤ b) (h₂ : b < r.stop)
    (copyLen : Nat) :
    RemapLocal d r tbl b copyLen ↔ LastGood d r tbl (getMappingBlockIndexBbt d tbl.bbtBuf b) := by
  obtain ⟨i, hi, hmap, hrank⟩ := getMapping_spec tbl.bbtBuf hr h₁ h₂
  rw [hmap]
  constructor
  · intro hlocal
    refine ⟨fun x hx hx₁ hx₂ => ?_, ?_⟩
    · -- a table block of the range: the chip that smears it shows the change
      by_contra hne
      have hk : x - r.start < r.stop - r.start := by omega
      have hx' : r.start + (x - r.start) = x := by omega
      have himg := getMapping_rank tbl.bbtBuf hr hk
      rw [hx'] at himg
      have hlt := rank_lt (p := GoodAt tbl.bbtBuf r.start) hk
      have hb' : r.start + rank (GoodAt tbl.bbtBuf r.start) (r.stop - r.start) (x - r.start) ≠ b := by
        intro h
        rw [h, hmap] at himg
        exact hne himg.symm
      let fl : Flash := ⟨fun _ => ⟨[0], []⟩, [], 0⟩
      obtain ⟨hsame, -, hdata⟩ := hlocal (.smear ⟨[], []⟩) fl _ (by omega) (by omega) hb'
      rw [hsame, himg, remapBlockBbt, mappingBlockInRange_of_mem hr h₁ h₂] at hdata
      obtain ⟨j, hj, hpage⟩ := store_smear (c := ⟨[], []⟩) bbtSig fl
        (bbtSetBits tbl.bbtBuf (getMappingBlockIndexBbt d tbl.bbtBuf b) true) hx
      have hfinal := hdata j hj
      dsimp only at hfinal
      have hsmear : ∀ fl' : Flash, fl'.page (d.blkPg x + j) = ⟨[], []⟩ → ∀ new src,
          (if copyLen > 0 then
            (bbtNandCopy d (.smear ⟨[], []⟩) (bbtNandErase d (.smear ⟨[], []⟩) fl' new).2
              new src copyLen).2
          else (bbtNandErase d (.smear ⟨[], []⟩) fl' new).2).page (d.blkPg x + j) = ⟨[], []⟩ := by
        intro fl' h new src
        have herase : (bbtNandErase d (.smear ⟨[], []⟩) fl' new).2.page (d.blkPg x + j) = ⟨[], []⟩ :=
          bbtNandErase_smear (Or.inr h)
        split
        · exact bbtNandCopyLoop_smear _ _ _ herase
        · exact herase
      have := (hsmear _ hpage _ _).symm.trans hfinal
      exact absurd this (by simp [fl])
    · by_cases hbad : bbtBlockIsBad tbl.bbtBuf (r.start + i) = true
      · exact Or.inl hbad
      · have hgood : GoodAt tbl.bbtBuf r.start i := by simpa [GoodAt] using hbad
        refine Or.inr fun x hx₁ hx₂ hne => ?_
        have hk : x - r.start < r.stop - r.start := by omega
        have hx' : r.start + (x - r.start) = x := by omega
        have hki : x - r.start ≠ i := by omega
        have hlt := rank_lt (p := GoodAt tbl.bbtBuf r.start) hk
        have hb' : r.start + rank (GoodAt tbl.bbtBuf r.start) (r.stop - r.start) (x - r.start)
            ≠ b := by
          intro h
          exact hki (rank_inj (p := GoodAt tbl.bbtBuf r.start) hk hi (by omega))
        obtain ⟨hsame, -, -⟩ := hlocal (.smear ⟨[], []⟩) ⟨fun _ => ⟨[0], []⟩, [], 0⟩ _
          (by omega) (by omega) hb'
        rw [remapBlockBbt_buf _ _ hr h₁ h₂, hmap, getMapping_rank tbl.bbtBuf hr hk] at hsame
        obtain ⟨k', hk', hk'map, hk'rank⟩ := getMapping_spec
          (bbtSetBits tbl.bbtBuf (r.start + i) true) hr
          (b := r.start + rank (GoodAt tbl.bbtBuf r.start) (r.stop - r.start) (x - r.start))
          (by omega) (by omega)
        obtain rfl : k' = x - r.start := by
          rw [hk'map] at hsame
          omega
        rw [rank_congr (goodAt_setBits tbl.bbtBuf r.start i), Nat.add_sub_cancel_left,
          rank_clear_iff hgood hi hki] at hk'rank
        by_cases hg : GoodAt tbl.bbtBuf r.start (x - r.start)
        · have hb : bbtBlockIsBad tbl.bbtBuf x = false := by rw [← hx']; exact hg
          rw [if_pos hg] at hk'rank
          simp only [hb, Bool.false_eq_true, if_false]
          omega
        · have hb : bbtBlockIsBad tbl.bbtBuf x = true := by
            rw [← hx']
            simpa [GoodAt] using hg
          rw [if_neg hg] at hk'rank
          simp only [hb, if_true]
          omega
  · intro hcond dev fl b' hb₁ hb₂ hne
    obtain ⟨k, hk, hkmap, hkrank⟩ := getMapping_spec tbl.bbtBuf hr hb₁ hb₂
    have hki : k ≠ i := by
      rintro rfl
      exact hne (by omega)
    have hkeep : getMappingBlockIndexBbt d (bbtSetBits tbl.bbtBuf (r.start + i) true) b'
        = r.start + k := by
      refine getMapping_eq_of_rank _ hr hb₁ hb₂ hk ?_
      rw [rank_setBits_of_lastGood hi hk hki hcond, hkrank]
    have hnew : getMappingBlockIndexBbt d (bbtSetBits tbl.bbtBuf (r.start + i) true) b
        ≠ r.start + k := by
      intro h
      obtain ⟨k', hk', hk'map, hk'rank⟩ :=
        getMapping_spec (bbtSetBits tbl.bbtBuf (r.start + i) true) hr h₁ h₂
      obtain rfl : k' = k := by omega
      rw [rank_setBits_of_lastGood hi hk hki hcond] at hk'rank
      exact hne (by omega)
    intro map s map'
    have hbuf : s.tbl.bbtBuf = bbtSetBits tbl.bbtBuf (r.start + i) true := by
      rw [← hmap]
      exact remapBlockBbt_buf dev _ hr h₁ h₂ _ _
    have hmap' : map' b' = r.start + k := by
      show getMappingBlockIndexBbt d s.tbl.bbtBuf b' = _
      rw [hbuf, hkeep]
    refine ⟨hmap'.trans hkmap.symm, ?_, fun j hj => ?_⟩
    · show getMappingBlockIndexBbt d s.tbl.bbtBuf b ≠ getMappingBlockIndexBbt d tbl.bbtBuf b'
      rw [hbuf, hkmap]
      exact hnew
    · have htouch := remapBlockBbt_flash dev ⟨fl, tbl⟩ hr h₁ h₂
        (getMappingBlockIndexBbt d tbl.bbtBuf b) copyLen
      rw [hmap', show map b' = r.start + k from hkmap]
      refine htouch.frame _ ?_
      rw [d.blkPg_add_div _ hj]
      rintro (htab | hself)
      · have := hcond.1 _ htab (by omega) (by omega)
        omega
      · rw [hmap] at hself
        exact hnew hself.symm

/-! ## A chip of 1024 blocks, remap range of 44 blocks -/

/-- 128 KiB blocks, 2 KiB pages, `mediatek,bmt-remap-range = <0x0 0x580000>`. -/
def bbtDesc : BmtDesc where
  blkShift := 17
  pgShift := 11
  totalBlks := 1024
  pgShift_le := pages2K_le
  totalBlks_lt := blks1024_lt
  remapRange := [⟨0, 0x580000, by decide, by decide, by decide, by decide⟩]
  disjoint := by simp
  bmtPgs := 64
  oobOffset := 0
  size_le := chip128M_le

/-- The remap range of `bbtDesc`. -/
def bbtRange : RemapRange bbtDesc.toGeometry :=
  ⟨0, 0x580000, by decide, by decide, by decide, by decide⟩

/-- No bad block yet, the bitmap stored in the last block. -/
def bbtAllGood : BbtTbl where
  bbtBuf := fun _ => 0
  bmtBlkIdx := 1023

/-- The first remap of logical block 0 moves logical block 1 from physical
block 1 to physical block 2, whose contents nobody copied. -/
theorem remapBlockBbt_not_local : ¬ RemapLocal bbtDesc bbtRange bbtAllGood 0 0x20000 := by
  intro hlocal
  obtain ⟨hsame, -, -⟩ := hlocal (.perfect bbtDesc.toGeometry)
    ⟨fun _ => bbtDesc.erasedPage, [], 0⟩ 1 (by decide) (by decide) (by decide)
  rw [remapBlockBbt_buf _ _ (r := bbtRange) (List.mem_singleton.mpr rfl) (by decide) (by decide)]
    at hsame
  exact absurd hsame (by decide)

/-- The remap of the last logical block of the range is local. -/
theorem remapBlockBbt_local_last : RemapLocal bbtDesc bbtRange bbtAllGood 43 0x20000 := by
  refine (remapBlockBbt_local_iff bbtDesc (r := bbtRange) (List.mem_singleton.mpr rfl) bbtAllGood
    (by decide) (by decide) 0x20000).mpr ⟨fun x hx _ hlt => ?_, Or.inr fun x _ hlt hne => ?_⟩
  · -- the bitmap lies in block 1023, behind the range
    have hstop : bbtRange.stop = 44 := by decide
    have hge : 1023 ≤ x := by
      rcases hx with rfl | ⟨q, hq, -, rfl⟩
      · exact Nat.le_refl _
      · exact (Nat.le_div_iff_mul_le bbtDesc.ppb_pos).mpr hq
    omega
  · have hmap : getMappingBlockIndexBbt bbtDesc bbtAllGood.bbtBuf 43 = 43 := by decide
    have hstop : bbtRange.stop = 44 := by decide
    have hgood : bbtBlockIsBad bbtAllGood.bbtBuf x = false := by
      simp [bbtBlockIsBad, bbtAllGood]
    rw [hmap] at hne ⊢
    simp only [hgood, Bool.false_eq_true, if_false]
    omega

end

end Lede.Bmt
