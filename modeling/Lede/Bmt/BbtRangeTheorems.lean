/-
Lede.Bmt.BbtRangeTheorems — `get_mapping_block_index_bbt` over a whole range.

With remap ranges the function is the inverse of the stable partition by "good", so it permutes
each range, good blocks first (`goodFirst_of_rank`). Without a range `mapping_block_in_range`
answers 0 and `total_blks`, which are block numbers, and the caller shifts them like addresses. Only
the first `total_blks >> blk_shift` blocks are then taken for the range, on a usual chip none.
-/
import Lede.Bmt.BbtTheorems
import Mathlib.Data.Set.Function
import Mathlib.Order.Interval.Set.Defs

namespace Lede.Bmt

open Lede.Nand Lede.Lib

/-! ## The property -/

/-- Good blocks of `start .. stop - 1`. -/
def goodBlocks (buf : Nat → UInt8) (start stop : Nat) : Nat :=
  Nat.count (GoodAt buf start) (stop - start)

/-- `f` permutes the range, and its first logical blocks go to the good blocks in ascending
order. -/
structure GoodFirst (f : Nat → Nat) (buf : Nat → UInt8) (start stop : Nat) : Prop where
  bij : Set.BijOn f (Set.Ico start stop) (Set.Ico start stop)
  good : Set.BijOn f (Set.Ico start (start + goodBlocks buf start stop))
    {b | b ∈ Set.Ico start stop ∧ bbtBlockIsBad buf b = false}
  ascending : StrictMonoOn f (Set.Ico start (start + goodBlocks buf start stop))

/-- A range of the configuration in blocks: a configured one, or the whole chip. -/
inductive ConfigRange (d : BmtDesc) : Nat → Nat → Prop where
  | listed (r : RemapRange d.toGeometry) (hr : r ∈ d.remapRange) : ConfigRange d r.start r.stop
  | whole (hnone : d.remapRange = []) : ConfigRange d 0 d.totalBlks

section Range

variable {d : BmtDesc} {buf : Nat → UInt8} {f : Nat → Nat} {start stop : Nat}

theorem goodAt_iff (b : Nat) (h : start ≤ b) :
    GoodAt buf start (b - start) ↔ bbtBlockIsBad buf b = false := by
  unfold GoodAt
  rw [Nat.add_sub_cancel' h]

theorem goodBlocks_le : goodBlocks buf start stop ≤ stop - start := Nat.count_le _

/-- The inverse of the stable partition. -/
theorem goodFirst_of_rank (hss : start ≤ stop)
    (hf : ∀ b, start ≤ b → b < stop → ∃ i < stop - start, f b = start + i ∧
    rank (GoodAt buf start) (stop - start) i = b - start) : GoodFirst f buf start stop := by
  have hle : goodBlocks buf start stop ≤ stop - start := goodBlocks_le
  have hinj : Set.InjOn f (Set.Ico start stop) := by
    rintro a ⟨ha₁, ha₂⟩ b ⟨hb₁, hb₂⟩ hab
    obtain ⟨i, -, hi, hri⟩ := hf a ha₁ ha₂
    obtain ⟨j, -, hj, hrj⟩ := hf b hb₁ hb₂
    obtain rfl : i = j := by omega
    omega
  -- every block is the image of the logical block at its rank
  have hsurj : ∀ i < stop - start, f (start + rank (GoodAt buf start) (stop - start) i) = start + i := by
    intro i hi
    have hlt := rank_lt (p := GoodAt buf start) hi
    obtain ⟨j, hj, he, hrj⟩ := hf (start + rank (GoodAt buf start) (stop - start) i) (by omega)
      (by omega)
    rw [he, rank_inj hj hi (hrj.trans (Nat.add_sub_cancel_left _ _))]
  -- the first logical blocks go to good blocks
  have hgood : ∀ b, start ≤ b → b < start + goodBlocks buf start stop →
      ∃ i < stop - start, f b = start + i ∧ GoodAt buf start i ∧
        Nat.count (GoodAt buf start) i = b - start := by
    intro b h₁ h₂
    obtain ⟨i, hi, he, hri⟩ := hf b h₁ (by omega)
    by_cases hg : GoodAt buf start i
    · rw [rank_of_mem hg] at hri
      exact ⟨i, hi, he, hg, hri⟩
    · rw [rank_of_not_mem hg] at hri
      unfold goodBlocks at h₂
      omega
  refine ⟨⟨?_, hinj, ?_⟩, ⟨?_, hinj.mono (Set.Ico_subset_Ico_right (by omega)), ?_⟩, ?_⟩
  · rintro b ⟨h₁, h₂⟩
    obtain ⟨i, hi, he, -⟩ := hf b h₁ h₂
    exact ⟨by omega, by omega⟩
  · rintro b ⟨h₁, h₂⟩
    have hb : b - start < stop - start := by omega
    have hlt := rank_lt (p := GoodAt buf start) hb
    refine ⟨_, ⟨Nat.le_add_right _ _, ?_⟩, (hsurj (b - start) hb).trans (by omega)⟩
    omega
  · rintro b ⟨h₁, h₂⟩
    obtain ⟨i, hi, he, hg, -⟩ := hgood b h₁ h₂
    rw [he]
    exact ⟨⟨by omega, by omega⟩, hg⟩
  · rintro b ⟨⟨h₁, h₂⟩, hb⟩
    have hlt : b - start < stop - start := by omega
    have hr := rank_lt_count ((goodAt_iff b h₁).2 hb) hlt
    refine ⟨_, ⟨Nat.le_add_right _ _, ?_⟩, (hsurj (b - start) hlt).trans (by omega)⟩
    unfold goodBlocks
    omega
  · rintro a ⟨ha₁, ha₂⟩ b ⟨hb₁, hb₂⟩ hab
    obtain ⟨i, -, hi, -, hci⟩ := hgood a ha₁ ha₂
    obtain ⟨j, -, hj, -, hcj⟩ := hgood b hb₁ hb₂
    have hij : i < j := by
      by_contra hge
      have hmono := Nat.count_monotone (GoodAt buf start) (Nat.not_lt.1 hge)
      omega
    omega

/-- The identity is such a map where no bad block lies before a good one. -/
theorem goodFirst_id_iff (hss : start ≤ stop) (hf : ∀ b, start ≤ b → b < stop → f b = b) :
    GoodFirst f buf start stop ↔ ∀ a b, start ≤ a → a < b → b < stop →
      bbtBlockIsBad buf a = true → bbtBlockIsBad buf b = true := by
  have hle : goodBlocks buf start stop ≤ stop - start := goodBlocks_le
  constructor
  · intro h a b h₁ h₂ h₃ hbad
    by_contra hgood
    rw [Bool.not_eq_true] at hgood
    obtain ⟨b', ⟨h₄, h₅⟩, he⟩ := h.good.surjOn ⟨⟨by omega, h₃⟩, hgood⟩
    rw [hf b' h₄ (by omega)] at he
    have ha := (h.good.mapsTo (show a ∈ Set.Ico start (start + goodBlocks buf start stop) from
      ⟨h₁, by omega⟩)).2
    rw [hf a h₁ (by omega), hbad] at ha
    cases ha
  · intro h
    refine goodFirst_of_rank hss fun b h₁ h₂ => ⟨b - start, by omega, ?_, ?_⟩
    · rw [hf b h₁ h₂]
      omega
    · have hafter : ∀ a, start ≤ a → a < b → ¬ GoodAt buf start (a - start) →
          ¬ GoodAt buf start (b - start) := by
        intro a h₃ h₄ ha hb
        rw [goodAt_iff a h₃, Bool.not_eq_false] at ha
        rw [goodAt_iff b h₁, h a b h₃ h₄ h₂ ha] at hb
        cases hb
      have hsplit := count_add_count_not (GoodAt buf start) (b - start)
      by_cases hg : GoodAt buf start (b - start)
      · rw [rank_of_mem hg]
        refine Nat.count_iff_forall.2 fun k hk => ?_
        by_contra hbad
        exact hafter (start + k) (by omega) (by omega) (by rwa [Nat.add_sub_cancel_left]) hg
      · -- from here on there are no good blocks
        have hrest : Nat.count (fun k => GoodAt buf start (b - start + k)) (stop - b) = 0 := by
          refine Nat.count_iff_forall_not.2 fun k hk hgk => hg ?_
          have hbk : start ≤ b + k := by omega
          rw [show b - start + k = b + k - start by omega, goodAt_iff _ hbk] at hgk
          rw [goodAt_iff b h₁]
          by_contra hbad
          rw [Bool.not_eq_false] at hbad
          by_cases hk0 : k = 0
          · rw [hk0, Nat.add_zero, hbad] at hgk
            cases hgk
          · rw [h b (b + k) h₁ (by omega) (by omega) hbad] at hgk
            cases hgk
        have hcount : Nat.count (GoodAt buf start) (stop - start) =
            Nat.count (GoodAt buf start) (b - start) := by
          rw [show stop - start = b - start + (stop - b) by omega, Nat.count_add, hrest, Nat.add_zero]
        rw [rank_of_not_mem hg, hcount]
        exact hsplit

/-! ## Without a range -/

theorem getMapping_whole (buf : Nat → UInt8) (hnone : d.remapRange = []) (b : Nat) :
    getMappingBlockIndexBbt d buf b = bbtRangeIndex buf 0 (d.totalBlks >>> d.blkShift) b := by
  have hin : mappingBlockInRange d b = some (0, d.totalBlks) := by simp [mappingBlockInRange, hnone]
  rw [getMappingBlockIndexBbt, hin]
  dsimp only
  rw [Nat.zero_shiftRight]
  rfl

/-- With more to skip than there are bad blocks the second loop takes the last of them. -/
theorem bbtOverflowLoop_last {ofs : Nat} : ∀ {n bad : Nat}, 0 < bad → bad ≤ ofs →
    bad ≤ Nat.count (fun b => bbtBlockIsBad buf b = true) n →
    ∃ i < n, bbtOverflowLoop buf ofs n bad = some i
  | 0, bad, h, _, hcount => by
      rw [Nat.count_zero] at hcount
      omega
  | n + 1, bad, h, hofs, hcount => by
      rw [bbtOverflowLoop, if_neg (by omega)]
      by_cases hb : bbtBlockIsBad buf n = true
      · rw [if_pos hb, if_pos (by omega)]
        exact ⟨n, Nat.lt_succ_self n, rfl⟩
      · rw [if_neg hb]
        rw [Nat.count_succ, if_neg hb, Nat.add_zero] at hcount
        obtain ⟨i, hi, he⟩ := bbtOverflowLoop_last h hofs hcount
        exact ⟨i, Nat.lt_succ_of_lt hi, he⟩

theorem badAt_zero (b : Nat) : ¬ GoodAt buf 0 b ↔ bbtBlockIsBad buf b = true := by
  unfold GoodAt
  rw [Nat.zero_add, Bool.not_eq_false]

/-- Behind the bounds: the block itself, or a bad block before the bounds. -/
theorem bbtRangeIndex_beyond {b : Nat} (hb : stop ≤ b) :
    ((∀ a < stop, bbtBlockIsBad buf a = false) → bbtRangeIndex buf 0 stop b = b) ∧
      ((∃ a < stop, bbtBlockIsBad buf a = true) → bbtRangeIndex buf 0 stop b < stop) := by
  have hsum := count_add_count_not (GoodAt buf 0) stop
  simp only [badAt_zero] at hsum
  unfold bbtRangeIndex
  rcases bbtSkipLoop_spec buf (stop - 0) 0 (b - 0) 0 with ⟨j, hj, hg, hc, he⟩ | ⟨hc, he⟩
  · have hle := Nat.count_le (GoodAt buf 0) (n := j)
    omega
  · simp only [Nat.sub_zero, badAt_zero, Nat.zero_add] at he ⊢
    rw [he]
    dsimp only
    rw [if_neg (Nat.lt_irrefl _)]
    constructor
    · intro hgood
      have hzero : Nat.count (fun b => bbtBlockIsBad buf b = true) stop = 0 :=
        Nat.count_iff_forall_not.2 fun a ha h => by rw [hgood a ha] at h; cases h
      rw [hzero]
      cases stop with
      | zero => rfl
      | succ n => rw [bbtOverflowLoop, if_pos rfl]; rfl
    · rintro ⟨a, ha, hbad⟩
      have hpos : 0 < Nat.count (fun b => bbtBlockIsBad buf b = true) stop := by
        rw [Nat.pos_iff_ne_zero]
        intro h0
        exact Nat.count_iff_forall_not.1 h0 a ha hbad
      obtain ⟨i, hi, hei⟩ := @bbtOverflowLoop_last buf
        (b - Nat.count (GoodAt buf 0) stop) stop _ hpos (by omega) (Nat.le_refl _)
      rw [hei]
      exact hi

/-- **`get_mapping_block_index_bbt` permutes a range of the configuration, good blocks first, exactly
if ranges are configured, or the bounds of the whole chip survive the shift, or there is nothing to
permute.** -/
theorem getMapping_goodFirst_iff (buf : Nat → UInt8) (h : ConfigRange d start stop) :
    GoodFirst (getMappingBlockIndexBbt d buf) buf start stop ↔
      d.remapRange ≠ [] ∨ d.totalBlks >>> d.blkShift = d.totalBlks ∨
        (∀ b < d.totalBlks >>> d.blkShift, bbtBlockIsBad buf b = false) ∧
        ∀ a b, a < b → b < d.totalBlks → bbtBlockIsBad buf a = true → bbtBlockIsBad buf b = true := by
  cases h with
  | listed r hr =>
    refine iff_of_true (goodFirst_of_rank (Nat.le_of_lt r.start_lt_stop) fun b h₁ h₂ =>
      getMapping_spec buf hr h₁ h₂) (Or.inl fun hnone => ?_)
    rw [hnone] at hr
    cases hr
  | whole hnone =>
    have hle : d.totalBlks >>> d.blkShift ≤ d.totalBlks := Nat.shiftRight_le _ _
    have hmap := getMapping_whole buf hnone
    rw [or_iff_right (not_not.2 hnone)]
    generalize d.totalBlks >>> d.blkShift = e at hle hmap
    by_cases he : e = d.totalBlks
    · refine iff_of_true (goodFirst_of_rank (Nat.zero_le _) fun b h₁ h₂ => ?_) (Or.inl he)
      rw [hmap, he]
      exact bbtRangeIndex_spec buf h₁ h₂
    · rw [or_iff_right he]
      by_cases hgood : ∀ b < e, bbtBlockIsBad buf b = false
      · have hid : ∀ b, 0 ≤ b → b < d.totalBlks → getMappingBlockIndexBbt d buf b = b := by
          intro b h₁ h₂
          rw [hmap]
          by_cases hb : b < e
          · obtain ⟨i, hi, hei, hri⟩ := bbtRangeIndex_spec buf h₁ hb
            have hgi : GoodAt buf 0 i := by
              unfold GoodAt
              exact hgood _ (by omega)
            have hci : Nat.count (GoodAt buf 0) i = i := Nat.count_iff_forall.2 fun k hk => by
              unfold GoodAt
              exact hgood _ (by omega)
            rw [rank_of_mem hgi, hci] at hri
            omega
          · exact (bbtRangeIndex_beyond (Nat.not_lt.1 hb)).1 hgood
        rw [goodFirst_id_iff (Nat.zero_le _) hid, and_iff_right hgood]
        exact ⟨fun h a b => h a b (Nat.zero_le _), fun h a b _ => h a b⟩
      · refine iff_of_false (fun h => ?_) fun h => hgood h.1
        obtain ⟨a, ha, hbad⟩ : ∃ a < e, bbtBlockIsBad buf a = true := by simpa using hgood
        -- block `e` goes to a block below `e`, where the blocks below `e` have gone already
        have hlow := (bbtRangeIndex_beyond (Nat.le_refl e)).2 ⟨a, ha, hbad⟩
        have hperm := goodFirst_of_rank (Nat.zero_le e) fun b h₁ h₂ => bbtRangeIndex_spec buf h₁ h₂
        obtain ⟨b, ⟨-, hb⟩, heq⟩ := hperm.bij.surjOn ⟨Nat.zero_le _, hlow⟩
        change bbtRangeIndex buf 0 e b = _ at heq
        rw [← hmap, ← hmap] at heq
        have hsame := h.bij.injOn ⟨Nat.zero_le b, by omega⟩ ⟨Nat.zero_le e, by omega⟩ heq
        omega

end Range

/-! ## Two chips -/

/-- Block 0 is bad. -/
def firstBad : Nat → UInt8 := fun i => if i = 0 then 3 else 0

/-- The range of `bbtDesc` begins with a bad block. -/
theorem getMapping_goodFirst_bbtRange :
    GoodFirst (getMappingBlockIndexBbt bbtDesc firstBad) firstBad bbtRange.start bbtRange.stop :=
  (getMapping_goodFirst_iff firstBad (.listed bbtRange (.head _))).2 (Or.inl (List.cons_ne_nil _ _))

/-- The same chip without `mediatek,bmt-remap-range`. -/
def plainDesc : BmtDesc := { bbtDesc with remapRange := [], disjoint := List.Pairwise.nil }

/-- Logical block 0 stays on the bad block 0. -/
theorem getMapping_not_goodFirst :
    ConfigRange plainDesc 0 1024 ∧ getMappingBlockIndexBbt plainDesc firstBad 0 = 0 ∧
      ¬ GoodFirst (getMappingBlockIndexBbt plainDesc firstBad) firstBad 0 1024 := by
  have hzero : getMappingBlockIndexBbt plainDesc firstBad 0 = 0 := by decide
  have hbad : bbtBlockIsBad firstBad 0 = true := by decide
  have hpos : 0 < goodBlocks firstBad 0 1024 := by decide +kernel
  refine ⟨.whole rfl, hzero, fun h => ?_⟩
  have hgood := (h.good.mapsTo ⟨Nat.le_refl 0, by omega⟩).2
  rw [hzero, hbad] at hgood
  cases hgood

end Lede.Bmt
